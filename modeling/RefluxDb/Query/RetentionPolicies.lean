import RefluxDb.Query.InfluxqlRewrite

/-! The database of a v1 write and the databases that v1 queries with the same names read.

A write names its database by case folding and by the special names of the retention policy; a
query by the printed identifiers of its statement. `fold` stands for the case folding of strings,
of which only two values matter. Writes are those with an accepted name. -/

namespace RefluxDb.Query.Influxql

/-- `str::to_lowercase`. -/
structure CaseFolding where
  fold : String → String
  fold_autogen : fold "autogen" = "autogen"
  fold_default : fold "default" = "default"

inductive RetentionPolicy where
  | unspecified
  | autogen
  | named (rp : String)

def RetentionPolicy.deserialize (folding : CaseFolding) (text : String) : RetentionPolicy :=
  let s := folding.fold text
  if s = "" ∨ s = "''" then .unspecified
  else if s = "autogen" ∨ s = "default" then .autogen
  else .named s

/-- The characters after the first. -/
def validRest (separatorFound : Bool) : List Char → Bool
  | [] => true
  | c :: rest =>
    if c = '/' then !separatorFound && validRest true rest
    else (c.isAlphanum || c = '_' || c = '-') && validRest separatorFound rest

def validateDbName (name : String) : Bool :=
  match name.toList with
  | [] => false
  | c :: rest => name.utf8ByteSize ≤ 64 && c.isAlphanum && validRest false rest &&
      (c :: rest).getLast? ≠ some '/'

def namespaceName (db : String) : RetentionPolicy → String
  | .unspecified => db
  | .autogen => db
  | .named rp => db ++ "/" ++ rp

/-- The database that a write stores its rows in, if its name is accepted. -/
def writeDatabase (folding : CaseFolding) (db rp : String) : Option String :=
  let name := namespaceName db (.deserialize folding rp)
  if validateDbName name then some name else none

/-- The database that a query with the parameters `db` and `rp` reads, for a statement that names
the pair. -/
def queryDatabase (isKeyword : String → Bool) (db rp : Option String) (pair : Dbrp) :
    Option String :=
  let db := if db = some "" then none else db
  let pair := match rp, pair.2 with
    | some rp, none => (pair.1, some rp)
    | _, _ => pair
  match db, resolveDbrp isKeyword pair with
  | db, none => db
  | _, some query => some query

theorem quote_notMem_validRest {found : Bool} {chars : List Char}
    (h : validRest found chars = true) : '"' ∉ chars := by
  induction chars generalizing found with
  | nil => simp
  | cons c rest ih =>
    rw [validRest] at h
    split at h
    · rename_i hslash
      simpa [hslash] using ih (Bool.and_eq_true_iff.mp h).2
    · obtain ⟨hvalid, hrest⟩ := Bool.and_eq_true_iff.mp h
      refine fun hmem => (List.mem_cons.mp hmem).elim ?_ (ih hrest)
      rintro rfl
      simp at hvalid

theorem quote_notMem {name : String} (h : validateDbName name = true) : '"' ∉ name.toList := by
  unfold validateDbName at h
  split at h
  · cases h
  · rename_i c rest heq
    simp only [Bool.and_eq_true] at h
    obtain ⟨⟨⟨_, hfirst⟩, hrest⟩, _⟩ := h
    rw [heq]
    refine fun hmem => (List.mem_cons.mp hmem).elim ?_ (quote_notMem_validRest hrest)
    rintro rfl
    simp at hfirst

theorem namespaceName_deserialize (folding : CaseFolding) (db rp : String) :
    namespaceName db (.deserialize folding rp) =
      if folding.fold rp ∈ ["", "''", "autogen", "default"] then db
      else db ++ "/" ++ folding.fold rp := by
  simp only [RetentionPolicy.deserialize, List.mem_cons, List.not_mem_nil, or_false]
  split_ifs <;> first | rfl | grind

/-- A policy is printed as it was folded only if it needs no quotes. -/
theorem display_eq_iff {isKeyword : String → Bool} {rp text : String} (h : '"' ∉ text.toList) :
    display isKeyword rp = text ↔ isUnquoted isKeyword rp = true ∧ text = rp := by
  unfold display
  split
  · rename_i hunquoted
    simp [hunquoted, eq_comm]
  · rename_i hquoted
    refine iff_of_false ?_ fun hunquoted => hquoted hunquoted.1
    rintro rfl
    simp at h

theorem queryDatabase_qualified (isKeyword : String → Bool) (db rp : String)
    (param policy : Option String) :
    queryDatabase isKeyword param policy (some db, some rp) =
      some (if rp = "autogen" ∨ rp = "default" then db else db ++ "/" ++ display isKeyword rp) := by
  by_cases hspecial : rp = "autogen" ∨ rp = "default"
  · simp [queryDatabase, resolveDbrp, ← not_or, hspecial]
  · simp [queryDatabase, resolveDbrp, ← not_or, hspecial]

/-- An unqualified `SELECT` reads what was written exactly when the policy is one of the special
names; one that names database and policy does when it prints the policy as it was folded. -/
theorem readsWritten_iff (isKeyword : String → Bool) (folding : CaseFolding) (db rp stored : String)
    (h : writeDatabase folding db rp = some stored) :
    (queryDatabase isKeyword (some db) (some rp) (none, none) = some stored ↔
        folding.fold rp ∈ ["", "''", "autogen", "default"]) ∧
      ∀ param policy, queryDatabase isKeyword param policy (some db, some rp) = some stored ↔
        rp = "autogen" ∨ rp = "default" ∨
          (isUnquoted isKeyword rp = true ∧ folding.fold rp = rp) := by
  simp only [writeDatabase, Option.ite_none_right_eq_some, Option.some.injEq] at h
  obtain ⟨hvalid, rfl⟩ := h
  have hquote := quote_notMem hvalid
  have hlonger : ∀ rest, db ++ "/" ++ rest ≠ db := by
    intro rest heq
    simpa using congrArg (fun s => s.toList.length) heq
  simp only [queryDatabase_qualified, forall_const, Option.some.injEq]
  rw [namespaceName_deserialize] at *
  by_cases hspecial : folding.fold rp ∈ ["", "''", "autogen", "default"]
  · rw [if_pos hspecial] at *
    have hdb : db ≠ "" := by
      rintro rfl
      simp [validateDbName] at hvalid
    refine ⟨iff_of_true (by simp [queryDatabase, resolveDbrp, hdb]) hspecial, ?_⟩
    by_cases hdefault : rp = "autogen" ∨ rp = "default"
    · simp [hdefault, ← or_assoc]
    · rw [if_neg hdefault, ← or_assoc]
      refine iff_of_false (hlonger _) ?_
      rintro (hsame | ⟨hunquoted, hfold⟩)
      · exact hdefault hsame
      · rw [hfold] at hspecial
        simp only [List.mem_cons, List.not_mem_nil, or_false] at hspecial
        rcases hspecial with rfl | rfl | hsame
        · simp [isUnquoted] at hunquoted
        · simp [isUnquoted] at hunquoted
        · exact hdefault hsame
  · rw [if_neg hspecial] at *
    have hdefault : ¬(rp = "autogen" ∨ rp = "default") := by
      rintro (rfl | rfl)
      · simp [folding.fold_autogen] at hspecial
      · simp [folding.fold_default] at hspecial
    refine ⟨iff_of_false ?_ hspecial, ?_⟩
    · have hne := (hlonger (folding.fold rp)).symm
      by_cases hdb : db = "" <;> simp_all [queryDatabase, resolveDbrp]
    · rw [if_neg hdefault, ← or_assoc, or_iff_right hdefault, ← display_eq_iff]
      · refine ⟨fun heq => String.toList_inj.mp ?_, fun heq => by rw [heq]⟩
        simpa using congrArg String.toList heq
      · intro hmem
        exact hquote (by simp [hmem])

def asciiFolding : CaseFolding where
  fold s := .ofList (s.toList.map Char.toLower)
  fold_autogen := by decide
  fold_default := by decide

theorem readsWritten_iff_autogen :
    queryDatabase (fun _ => false) (some "db") (some "AutoGen") (none, none) = some "db" ∧
      queryDatabase (fun _ => false) none none (some "db", some "weekly") = some "db/weekly" :=
  ⟨(readsWritten_iff _ asciiFolding "db" "AutoGen" "db" (by decide)).1.mpr (by decide),
    ((readsWritten_iff _ asciiFolding "db" "weekly" "db/weekly" (by decide)).2 _ _).mpr (by decide)⟩

/-- The policy of the parameters is dropped, and one with a hyphen is printed with quotes. -/
theorem named_policy_not_read : writeDatabase asciiFolding "db" "one-week" = some "db/one-week" ∧
    queryDatabase (fun _ => false) (some "db") (some "one-week") (none, none) = some "db" ∧
    queryDatabase (fun _ => false) none none (some "db", some "one-week") =
      some "db/\"one-week\"" := by
  decide

end RefluxDb.Query.Influxql
