import Mathlib.Data.List.Basic

/-! The databases of an InfluxQL query are taken out of it before it is run.

A query is rewritten when all its measurements, at every depth, name the same database and
retention policy; it is then run on that database, or on the one of the request. The type `μ` is
that of measurement names and `ρ` that of everything else in a `SELECT`. Statements other than
`SELECT` and `EXPLAIN` are left out. -/

namespace RefluxDb.Query.Influxql

open List

abbrev Identifier := String

/-- The database and the retention policy that a measurement names. -/
abbrev Dbrp := Option Identifier × Option Identifier

section Identifiers

variable (isKeyword : String → Bool)

/-- Whether a text is an identifier without quotes. -/
def isUnquoted (text : String) : Bool :=
  !isKeyword text && match text.toList with
    | [] => false
    | c :: rest => (c.isAlpha || c = '_') && rest.all fun c => c.isAlphanum || c = '_'

def escape : Char → List Char
  | '\n' => ['\\', 'n']
  | '\\' => ['\\', '\\']
  | '"' => ['\\', '"']
  | c => [c]

/-- The text of an identifier as it is printed. -/
def display (text : Identifier) : String :=
  if isUnquoted isKeyword text then text
  else .ofList ('"' :: text.toList.flatMap escape ++ ['"'])

/-- The database that a statement is run on; the policy is printed as an identifier. -/
def resolveDbrp : Dbrp → Option String
  | (none, _) => none
  | (some db, none) => some db
  | (some db, some rp) =>
    if rp ≠ "autogen" ∧ rp ≠ "default" then some (db ++ "/" ++ display isKeyword rp) else some db

end Identifiers

inductive Error where
  | multiDatabase
  | databaseMismatch (paramDb queryDb : String)
deriving DecidableEq

/-- The sources of a `FROM` clause, one after another. -/
inductive FromMeasurementClause (μ ρ : Type) where
  | nil
  | name (database retentionPolicy : Option Identifier) (measurement : μ)
      (more : FromMeasurementClause μ ρ)
  | subquery (rest : ρ) (sources more : FromMeasurementClause μ ρ)

inductive Statement (μ ρ : Type) where
  | select (rest : ρ) (sources : FromMeasurementClause μ ρ)
  | explain (options : Option String) (statement : Statement μ ρ)

structure Rewritten (S : Type) where
  dbrp : Dbrp
  statement : S

section Rewriting

/-- Adds a pair to a set, which must not become one of two. -/
def insertPair (pairs : List Dbrp) (pair : Dbrp) : Except Error (List Dbrp) :=
  if pair ∈ pairs then .ok pairs
  else if 1 < pairs.length + 1 then .error .multiDatabase
  else .ok (pair :: pairs)

def pairOf (pairs : List Dbrp) : Dbrp := pairs.head?.getD (none, none)

variable {μ ρ : Type}

namespace FromMeasurementClause

/-- Takes the pairs out of the sources. A sub-query has a set of its own. -/
def rewrite (pairs : List Dbrp) :
    FromMeasurementClause μ ρ → Except Error (List Dbrp × FromMeasurementClause μ ρ)
  | nil => .ok (pairs, nil)
  | name db rp measurement more => do
      let (all, more) ← insertPair pairs (db, rp) >>= more.rewrite
      .ok (all, name none none measurement more)
  | subquery rest sources more => do
      let (inner, sources) ← sources.rewrite []
      let (all, more) ← insertPair pairs (pairOf inner) >>= more.rewrite
      .ok (all, subquery rest sources more)

/-- The pairs of all measurements, at every depth. -/
def references : FromMeasurementClause μ ρ → List Dbrp
  | nil => []
  | name db rp _ more => (db, rp) :: more.references
  | subquery _ sources more => sources.references ++ more.references

/-- The clause without any database or retention policy. -/
def stripped : FromMeasurementClause μ ρ → FromMeasurementClause μ ρ
  | nil => nil
  | name _ _ measurement more => name none none measurement more.stripped
  | subquery rest sources more => subquery rest sources.stripped more.stripped

/-- Sub-queries have a source, as they do in what is parsed. -/
def Parsed : FromMeasurementClause μ ρ → Prop
  | nil => True
  | name _ _ _ more => more.Parsed
  | subquery _ sources more => sources ≠ nil ∧ sources.Parsed ∧ more.Parsed

end FromMeasurementClause

namespace Statement

def tryFrom : Statement μ ρ → Except Error (Rewritten (Statement μ ρ))
  | select rest sources => do
      let (pairs, sources) ← sources.rewrite []
      .ok { dbrp := pairOf pairs, statement := select rest sources }
  | explain options statement => do
      let rewritten ← statement.tryFrom
      .ok { rewritten with statement := explain options rewritten.statement }

def references : Statement μ ρ → List Dbrp
  | select _ sources => sources.references
  | explain _ statement => statement.references

def stripped : Statement μ ρ → Statement μ ρ
  | select rest sources => select rest sources.stripped
  | explain options statement => explain options statement.stripped

def Parsed : Statement μ ρ → Prop
  | select _ sources => sources ≠ .nil ∧ sources.Parsed
  | explain _ statement => statement.Parsed

/-- The database that the request and the statement agree on, which is authorised and read, and the
statement that is run on it. -/
def queryInfluxqlInner (isKeyword : String → Bool) (database : Option String)
    (statement : Statement μ ρ) : Except Error (Option String × Statement μ ρ) := do
  let rewritten ← statement.tryFrom
  match database, resolveDbrp isKeyword rewritten.dbrp with
  | none, query => .ok (query, rewritten.statement)
  | some db, none => .ok (some db, rewritten.statement)
  | some p, some q =>
    if p = q then .ok (some p, rewritten.statement) else .error (.databaseMismatch p q)

/-- The databases that a statement reads when it is run on one. -/
def reads (isKeyword : String → Bool) (database : String) (statement : Statement μ ρ) :
    List String :=
  statement.references.map fun pair => (resolveDbrp isKeyword pair).getD database

end Statement

end Rewriting

section Confinement

variable {pairs : List Dbrp} {pair : Dbrp}

/-- A set of at most one pair takes a pair exactly when it holds no other. -/
theorem insertPair_spec (pair : Dbrp) (hone : pairs.length ≤ 1) :
    match insertPair pairs pair with
    | .ok all => all.length ≤ 1 ∧ ∀ r, r ∈ all ↔ r = pair ∨ r ∈ pairs
    | .error _ => ∃ r ∈ pairs, r ≠ pair := by
  unfold insertPair
  match pairs with
  | [] => simp
  | [only] =>
    by_cases hsame : pair = only
    · simp [hsame]
    · simpa [hsame] using Ne.symm hsame
  | _ :: _ :: _ => simp at hone

theorem pairOf_eq (hone : pairs.length ≤ 1) (hpair : pair ∈ pairs) : pairOf pairs = pair := by
  match pairs with
  | [only] => exact (mem_singleton.mp hpair).symm
  | _ :: _ :: _ => simp at hone

variable {μ ρ : Type}

namespace FromMeasurementClause

variable {clause : FromMeasurementClause μ ρ}

theorem exists_mem_references (hparsed : clause.Parsed) (hne : clause ≠ nil) :
    ∃ r, r ∈ clause.references := by
  induction clause with
  | nil => exact absurd rfl hne
  | name db rp measurement more _ => exact ⟨(db, rp), mem_cons_self⟩
  | subquery rest sources more ih _ =>
    obtain ⟨r, hr⟩ := ih hparsed.2.1 hparsed.1
    exact ⟨r, mem_append_left _ hr⟩

theorem references_stripped : ∀ r ∈ clause.stripped.references, r = (none, none) := by
  induction clause with
  | nil => simp [stripped, references]
  | name db rp measurement more ih => simpa [stripped, references] using ih
  | subquery rest sources more ihs ihm =>
    intro r hr
    exact (mem_append.mp hr).elim (ihs r) (ihm r)

/-- What rewriting has done with a set of pairs: the pairs of the clause are in it, or two of all
of them are different. -/
def Collects (pairs refs : List Dbrp) (clause : FromMeasurementClause μ ρ) :
    Except Error (List Dbrp × FromMeasurementClause μ ρ) → Prop
  | .ok (all, sources) => all.length ≤ 1 ∧ (∀ r, r ∈ all ↔ r ∈ pairs ∨ r ∈ refs) ∧
      sources = clause.stripped
  | .error _ => ∃ r r', (r ∈ pairs ∨ r ∈ refs) ∧ (r' ∈ pairs ∨ r' ∈ refs) ∧ r' ≠ r

/-- Goes on after a source whose measurements all have one pair. -/
theorem Collects.insert (refs : List Dbrp) (hrefs : ∀ r, r ∈ refs ↔ r = pair)
    (hone : pairs.length ≤ 1)
    (h : ∀ all : List Dbrp, all.length ≤ 1 →
      Collects all clause.references clause (clause.rewrite all)) :
    Collects pairs (refs ++ clause.references) clause
      (insertPair pairs pair >>= clause.rewrite) := by
  have hspec := insertPair_spec pair hone
  cases hinsert : insertPair pairs pair with
  | error e =>
    simp only [hinsert] at hspec
    obtain ⟨r, hr, hne⟩ := hspec
    exact ⟨pair, r, .inr (mem_append_left _ ((hrefs _).mpr rfl)), .inl hr, hne⟩
  | ok all =>
    simp only [hinsert] at hspec
    have hmore := h all hspec.1
    simp only [bind, Except.bind]
    cases hrewrite : clause.rewrite all with
    | error e =>
      simp only [hrewrite, Collects, hspec.2, mem_append, hrefs] at hmore ⊢
      grind
    | ok result =>
      simp only [hrewrite, Collects, hspec.2, mem_append, hrefs] at hmore ⊢
      exact ⟨hmore.1, by grind, hmore.2.2⟩

theorem collects_rewrite (hparsed : clause.Parsed) (pairs : List Dbrp) (hone : pairs.length ≤ 1) :
    Collects pairs clause.references clause (clause.rewrite pairs) := by
  induction clause generalizing pairs with
  | nil => exact ⟨hone, by simp [references], rfl⟩
  | name db rp measurement more ih =>
    have hmore := Collects.insert [(db, rp)] (fun _ => mem_singleton) hone
      (ih hparsed)
    rw [rewrite]
    cases hrewrite : insertPair pairs (db, rp) >>= more.rewrite with
    | error e =>
      rw [hrewrite] at hmore
      exact hmore
    | ok result =>
      rw [hrewrite] at hmore
      exact ⟨hmore.1, hmore.2.1, congrArg (name none none measurement) hmore.2.2⟩
  | subquery rest sources more ihs ihm =>
    obtain ⟨hne, hsources, hmore⟩ := hparsed
    obtain ⟨r, hr⟩ := exists_mem_references hsources hne
    have hinner := ihs hsources [] (Nat.zero_le 1)
    rw [rewrite]
    cases hrewrite : sources.rewrite [] with
    | error e =>
      simp only [hrewrite, Collects, not_mem_nil, false_or] at hinner
      obtain ⟨a, b, ha, hb, hab⟩ := hinner
      exact ⟨a, b, .inr (mem_append_left _ ha), .inr (mem_append_left _ hb), hab⟩
    | ok result =>
      simp only [hrewrite, Collects, not_mem_nil, false_or] at hinner
      obtain ⟨hinnerOne, hinnerMem, hstripped⟩ := hinner
      -- the set of the sub-query is the one pair that all its measurements have
      have hrefs : ∀ r', r' ∈ sources.references ↔ r' = pairOf result.1 := by
        refine fun r' => ⟨fun hr' => (pairOf_eq hinnerOne ((hinnerMem r').mpr hr')).symm, ?_⟩
        rintro rfl
        exact (pairOf_eq hinnerOne ((hinnerMem r).mpr hr)).symm ▸ hr
      have hrest := Collects.insert sources.references hrefs hone (ihm hmore)
      change Collects pairs _ _ (insertPair pairs (pairOf result.1) >>= more.rewrite >>= _)
      cases hinsert : insertPair pairs (pairOf result.1) >>= more.rewrite with
      | error e =>
        rw [hinsert] at hrest
        exact hrest
      | ok collected =>
        rw [hinsert] at hrest
        exact ⟨hrest.1, hrest.2.1, by rw [stripped, ← hstripped, ← hrest.2.2]⟩

end FromMeasurementClause

namespace Statement

variable {statement : Statement μ ρ}

/-- All measurements have the pair that is reported, and in what is run none has a pair; the rest
is the same. -/
structure Confined (statement : Statement μ ρ) (rewritten : Rewritten (Statement μ ρ)) : Prop where
  pair : ∀ r ∈ statement.references, r = rewritten.dbrp
  unqualified : ∀ r ∈ rewritten.statement.references, r = (none, none)
  unchanged : rewritten.statement = statement.stripped

theorem tryFrom_spec (h : statement.Parsed) :
    match statement.tryFrom with
    | .ok rewritten => Confined statement rewritten
    | .error _ => ∃ r ∈ statement.references, ∃ r' ∈ statement.references, r' ≠ r := by
  induction statement with
  | select rest sources =>
    have hspec := FromMeasurementClause.collects_rewrite h.2 [] (Nat.zero_le 1)
    simp only [tryFrom, references, bind, Except.bind]
    cases hrewrite : sources.rewrite [] with
    | error e =>
      simp only [hrewrite, FromMeasurementClause.Collects, not_mem_nil, false_or] at hspec
      grind
    | ok result =>
      simp only [hrewrite, FromMeasurementClause.Collects, not_mem_nil, false_or] at hspec
      obtain ⟨hone, hmem, hsources⟩ := hspec
      refine ⟨fun r hr => (pairOf_eq hone ((hmem r).mpr hr)).symm, ?_, ?_⟩
      · rw [hsources]
        exact FromMeasurementClause.references_stripped
      · rw [stripped, hsources]
  | explain options statement ih =>
    have hspec := ih h
    simp only [tryFrom, bind, Except.bind]
    cases hrewrite : statement.tryFrom with
    | error e => simpa only [hrewrite, references] using hspec
    | ok rewritten =>
      simp only [hrewrite] at hspec
      exact { hspec with unchanged := congrArg (explain options) hspec.unchanged }

theorem run_of_query {isKeyword : String → Bool} {param database : Option String}
    {run : Statement μ ρ} (h : statement.queryInfluxqlInner isKeyword param = .ok (database, run)) :
    ∃ dbrp, statement.tryFrom = .ok ⟨dbrp, run⟩ := by
  simp only [queryInfluxqlInner, bind, Except.bind] at h
  cases hok : statement.tryFrom with
  | error e => simp [hok] at h
  | ok rewritten =>
    simp only [hok] at h
    obtain rfl : rewritten.statement = run := by
      split at h
      · exact congrArg Prod.snd (Except.ok.inj h)
      · exact congrArg Prod.snd (Except.ok.inj h)
      · split at h
        · exact congrArg Prod.snd (Except.ok.inj h)
        · cases h
    exact ⟨rewritten.dbrp, rfl⟩

/-- A query is rewritten exactly when its measurements name one database and retention policy.
These are then reported, and nothing of them is left in the statement, which is otherwise the same
and reads no database but the one that is authorised. -/
theorem rewritten_iff_oneDatabase (isKeyword : String → Bool) (statement : Statement μ ρ)
    (h : statement.Parsed) :
    ((∃ rewritten, statement.tryFrom = .ok rewritten) ↔
        ∃ pair, ∀ r ∈ statement.references, r = pair) ∧
      (∀ rewritten, statement.tryFrom = .ok rewritten → Confined statement rewritten) ∧
      ∀ param database run, statement.queryInfluxqlInner isKeyword param =
        .ok (some database, run) →
        ∀ db ∈ run.reads isKeyword database, db = database := by
  have hspec := tryFrom_spec h
  have hconfined :
      ∀ rewritten, statement.tryFrom = .ok rewritten → Confined statement rewritten := by
    intro rewritten hok
    simpa only [hok] using hspec
  refine ⟨⟨fun ⟨rewritten, hok⟩ => ⟨_, (hconfined rewritten hok).pair⟩, ?_⟩, hconfined, ?_⟩
  · rintro ⟨pair, hpair⟩
    cases hok : statement.tryFrom with
    | ok rewritten => exact ⟨rewritten, rfl⟩
    | error e =>
      simp only [hok] at hspec
      obtain ⟨r, hr, r', hr', hne⟩ := hspec
      exact absurd ((hpair r' hr').trans (hpair r hr).symm) hne
  · intro param database run hquery db hdb
    obtain ⟨dbrp, hok⟩ := run_of_query hquery
    obtain ⟨r, hr, rfl⟩ := mem_map.mp hdb
    rw [(hconfined _ hok).unqualified r hr]
    rfl

/-- A measurement beside a sub-query that names the same database. -/
theorem rewritten_iff_oneDatabase_nested : ∃ rewritten, tryFrom
    (.explain none (.select () (.name (some "db") none "cpu"
      (.subquery () (.name (some "db") none "mem" .nil) .nil)))) = .ok rewritten := by
  refine (rewritten_iff_oneDatabase (fun _ => false) _ ?_).1.mpr ⟨(some "db", none), by decide⟩
  exact ⟨nofun, nofun, trivial, trivial⟩

end Statement

end Confinement

end RefluxDb.Query.Influxql
