import RefluxDb.Catalog.BatchEffects
import RefluxDb.Library.Lists

/-! Which hashes find a token.

Batches of token operations and restarts from a snapshot come in any order, and no hash is generated
twice. A hash finds the token that has it now; one that was replaced, or whose token was deleted,
finds nothing. A batch that cannot be applied is a panic, and no step. -/

namespace RefluxDb.Catalog

open List RefluxDb.Library Fallible

def TokenCatalogOp.hashes : TokenCatalogOp → List (List UInt8)
  | createAdminToken details => [details.hash]
  | createScopedToken details => [details.hash]
  | regenerateAdminToken details => [details.hash]
  | deleteToken _ => []

/-- The catalogs that are reached, with the hashes generated on the way. -/
inductive HashesReached : InnerCatalog → List (List UInt8) → Prop
  | initial {inner} (htokens : inner.tokens = {}) : HashesReached inner []
  | batch {inner updated generated changed} (ops : List TokenCatalogOp)
      (h : HashesReached inner generated)
      (hdistinct : (generated ++ ops.flatMap TokenCatalogOp.hashes).Nodup)
      (hok : inner.applyAll InnerCatalog.applyTokenOp ops = .ok (updated, changed)) :
      HashesReached updated (generated ++ ops.flatMap TokenCatalogOp.hashes)
  | restore {inner restored generated} (h : HashesReached inner generated)
      (hok : InnerCatalog.fromSnapshot inner.snapshot = .ok restored) :
      HashesReached restored generated

namespace TokenRepository

variable {tokens : TokenRepository} {token : TokenInfo} {hash : List UInt8}
variable {generated : List (List UInt8)}

/-- The map has the hash of every token and no other, and all were generated. -/
structure Current (generated : List (List UInt8)) (tokens : TokenRepository) : Prop where
  indexed : ∀ id hash, (id, hash) ∈ tokens.hashLookupMap.pairs ↔
    ∃ token, (id, token) ∈ tokens.repo.repo.entries ∧ token.hash = hash
  generated : ∀ entry ∈ tokens.repo.repo.entries, entry.2.hash ∈ generated

namespace Current

variable (h : tokens.Current generated)
include h

theorem hashToInfo_eq_some : tokens.hashToInfo hash = some token ↔
    (∃ id, tokens.repo.getById id = some token) ∧ token.hash = hash := by
  rw [hashToInfo, Option.bind_eq_some_iff]
  constructor
  · rintro ⟨id, hid, hget⟩
    obtain ⟨other, hmem, rfl⟩ := (h.indexed id hash).mp (BiMap.getByRight_eq_some.mp hid)
    obtain rfl := IndexMap.value_unique hmem (Repository.getById_eq_some.mp hget)
    exact ⟨⟨id, hget⟩, rfl⟩
  · rintro ⟨⟨id, hget⟩, rfl⟩
    have hpair := (h.indexed id _).mpr ⟨token, Repository.getById_eq_some.mp hget, rfl⟩
    exact ⟨id, BiMap.getByRight_eq_some.mpr hpair, hget⟩

theorem id_eq_of_hash_eq {a b : Nat × TokenInfo} (ha : a ∈ tokens.repo.repo.entries)
    (hb : b ∈ tokens.repo.repo.entries) (hhash : a.2.hash = b.2.hash) : a.1 = b.1 := by
  have hleft := (h.indexed a.1 _).mpr ⟨a.2, ha, hhash⟩
  have hright := (h.indexed b.1 _).mpr ⟨b.2, hb, rfl⟩
  exact (Prod.mk.inj (tokens.hashLookupMap.right_unique _ hleft _ hright rfl)).1

theorem put (hnew : hash ∉ generated) (hhash : token.hash = hash) (id nextId : Nat) :
    Current (generated ++ [hash])
      ⟨tokens.repo.put id token nextId, tokens.hashLookupMap.insert id hash⟩ where
  indexed other _ := by
    have hold : ∀ entry ∈ tokens.repo.repo.entries, entry.2.hash ≠ hash :=
      fun entry hentry hsame => hnew (hsame ▸ h.generated entry hentry)
    simp only [Repository.put, BiMap.mem_pairs_insert, IndexMap.mem_entries_insert, h.indexed,
      Prod.mk.injEq]
    grind
  generated := IndexMap.forall_entries_insert (by simp [hhash]) fun entry hentry =>
    mem_append_left _ (h.generated entry hentry)

theorem remove (id : Nat) :
    Current generated ⟨tokens.repo.remove id, tokens.hashLookupMap.removeByLeft id⟩ where
  indexed other hash := by
    simp only [Repository.remove, BiMap.mem_pairs_removeByLeft, IndexMap.mem_entries_erase,
      h.indexed]
    grind
  generated entry hentry := h.generated entry (IndexMap.mem_entries_erase.mp hentry).1

omit h in
/-- A map made from entries that differ in their keys and in their hashes has all of them. -/
theorem mem_pairs_foldl {pair : Nat × List UInt8} (entries : List (Nat × TokenInfo))
    (hpairwise : entries.Pairwise fun a b => a.1 ≠ b.1 ∧ a.2.hash ≠ b.2.hash) :
    pair ∈ (entries.foldl (fun (hashes : BiMap Nat (List UInt8)) entry =>
        hashes.insert entry.1 entry.2.hash) {}).pairs ↔
      ∃ entry ∈ entries, (entry.1, entry.2.hash) = pair := by
  induction entries using reverseRecOn with
  | nil => simp
  | append_singleton entries last ih =>
    obtain ⟨hentries, -, hlast⟩ := pairwise_append.mp hpairwise
    rw [foldl_append, foldl_cons, foldl_nil, BiMap.mem_pairs_insert, ih hentries]
    constructor
    · rintro (rfl | ⟨⟨entry, hentry, rfl⟩, -⟩)
      · exact ⟨last, mem_concat_self, rfl⟩
      · exact ⟨entry, mem_append_left _ hentry, rfl⟩
    · rintro ⟨entry, hentry, rfl⟩
      rcases mem_concat.mp hentry with hold | rfl
      · exact .inr ⟨⟨entry, hold, rfl⟩, hlast entry hold last mem_cons_self⟩
      · exact .inl rfl

/-- The map is made again from the tokens of a snapshot. -/
theorem restore {repo : Repository TokenInfo}
    (hok : Repository.fromSnapshot (fun token => pure (TokenInfo.fromSnapshot token))
      (tokens.repo.snapshot TokenInfo.snapshot) = .ok repo) :
    Current generated ⟨repo, repo.repo.entries.foldl (fun hashes entry =>
      hashes.insert entry.1 entry.2.hash) {}⟩ := by
  have hold : ∀ entry ∈ repo.repo.entries, ∃ old ∈ tokens.repo.repo.entries,
      old.1 = entry.1 ∧ old.2.hash = entry.2.hash := by
    intro entry hentry
    obtain ⟨kept, hkept, hrestore⟩ := (Repository.fromSnapshot_entries hok).2 entry hentry
    obtain ⟨old, hmem, heq⟩ := mem_map.mp hkept
    obtain ⟨hkey, rfl⟩ := Prod.mk.inj heq
    rw [← pure_eq_ok.mp hrestore]
    exact ⟨old, hmem, hkey, rfl⟩
  have hpairwise : repo.repo.entries.Pairwise fun a b => a.1 ≠ b.1 ∧ a.2.hash ≠ b.2.hash := by
    refine (pairwise_map.mp repo.repo.nodup_keys).imp_of_mem fun ha hb hne => ⟨hne, ?_⟩
    intro hsame
    obtain ⟨a, ha, hakey, hahash⟩ := hold _ ha
    obtain ⟨b, hb, hbkey, hbhash⟩ := hold _ hb
    exact hne (hakey ▸ hbkey ▸ h.id_eq_of_hash_eq ha hb (by rw [hahash, hsame, hbhash]))
  refine ⟨fun id hash => ?_, fun entry hentry => ?_⟩
  · rw [mem_pairs_foldl _ hpairwise]
    simp
  · obtain ⟨old, hmem, -, hhash⟩ := hold entry hentry
    exact hhash ▸ h.generated old hmem

end Current

end TokenRepository

namespace HashesReached

variable {inner updated : InnerCatalog} {generated : List (List UInt8)} {changed : Bool}

/-- What an operation leaves: tokens that were there, and one with a new hash. -/
theorem applyTokenOp {op : TokenCatalogOp} (h : inner.tokens.Current generated)
    (hnew : ∀ hash ∈ op.hashes, hash ∉ generated)
    (hop : inner.applyTokenOp op = .ok (updated, changed)) :
    updated.tokens.Current (generated ++ op.hashes) ∧
      ∀ entry ∈ updated.tokens.repo.repo.entries,
        entry ∈ inner.tokens.repo.repo.entries ∨ entry.2.hash ∈ op.hashes := by
  cases op with
  | createAdminToken details | createScopedToken details =>
    simp only [InnerCatalog.applyTokenOp, TokenRepository.addToken, bind_eq_ok, pure_eq_ok,
      Prod.mk.injEq] at hop
    obtain ⟨_, ⟨repo, hinsert, rfl⟩, rfl, -⟩ := hop
    obtain ⟨_, _, rfl⟩ := Repository.insert_eq_ok.mp hinsert
    exact ⟨h.put (hnew details.hash mem_cons_self) (by rfl) _ _,
      IndexMap.forall_entries_insert (.inr mem_cons_self) fun _ => .inl⟩
  | regenerateAdminToken details =>
    simp only [InnerCatalog.applyTokenOp, TokenRepository.updateAdminTokenHash, bind_eq_ok,
      pure_eq_ok, Prod.mk.injEq] at hop
    obtain ⟨_, ⟨token, _, repo, hupdate, rfl⟩, rfl, -⟩ := hop
    obtain ⟨_, _, rfl⟩ := Repository.update_eq_ok.mp hupdate
    exact ⟨h.put (hnew details.hash mem_cons_self) (by rfl) _ _,
      IndexMap.forall_entries_insert (.inr mem_cons_self) fun _ => .inl⟩
  | deleteToken name =>
    simp only [InnerCatalog.applyTokenOp, TokenRepository.deleteToken, bind_eq_ok, pure_eq_ok,
      Prod.mk.injEq] at hop
    obtain ⟨_, ⟨id, _, rfl⟩, rfl, -⟩ := hop
    rw [TokenCatalogOp.hashes, append_nil]
    exact ⟨h.remove id, fun entry hentry => .inl (IndexMap.mem_entries_erase.mp hentry).1⟩

theorem current (h : HashesReached inner generated) : inner.tokens.Current generated := by
  induction h with
  | initial htokens =>
    rw [htokens]
    exact ⟨by simp, by simp⟩
  | @batch inner _ generated _ ops _ hdistinct hok ih =>
    refine InnerCatalog.applyAll_induct
      (fun done inner => (generated ++ done.flatMap TokenCatalogOp.hashes).Nodup →
        inner.tokens.Current (generated ++ done.flatMap TokenCatalogOp.hashes))
      (fun done op inner updated changed hdone hop hnodup => ?_) (fun _ => by simpa using ih)
      hok hdistinct
    rw [flatMap_append, flatMap_singleton, ← append_assoc] at hnodup ⊢
    obtain ⟨hbefore, -, hapart⟩ := nodup_append.mp hnodup
    exact (applyTokenOp (hdone hbefore)
      (fun hash hnew hold => hapart hash hold hash hnew rfl) hop).1
  | restore _ hok ih =>
    simp only [InnerCatalog.fromSnapshot, bind_eq_ok, pure_eq_ok] at hok
    obtain ⟨repo, hrepo, _, _, _, _, rfl⟩ := hok
    exact ih.restore hrepo

/-- When an operation gives a token another hash or deletes it, the hash that it had finds
nothing. -/
theorem hashToInfo_eq_none_of_changed {op : TokenCatalogOp} (id : Nat) (token : TokenInfo)
    (h : inner.tokens.Current generated) (hnew : ∀ hash ∈ op.hashes, hash ∉ generated)
    (hop : inner.applyTokenOp op = .ok (updated, changed))
    (hmem : (id, token) ∈ inner.tokens.repo.repo.entries)
    (hother : ∀ found, (id, found) ∈ updated.tokens.repo.repo.entries →
      found.hash ≠ token.hash) : updated.tokens.hashToInfo token.hash = none := by
  obtain ⟨hcurrent, hkept⟩ := applyTokenOp h hnew hop
  rw [Option.eq_none_iff_forall_ne_some]
  intro found hfound
  obtain ⟨⟨key, hkey⟩, hhash⟩ := hcurrent.hashToInfo_eq_some.mp hfound
  rw [Repository.getById_eq_some] at hkey
  rcases hkept _ hkey with hold | hadded
  · obtain rfl : key = id := h.id_eq_of_hash_eq hold hmem hhash
    exact hother found hkey hhash
  · exact hnew _ hadded (hhash ▸ h.generated _ hmem)

theorem regenerated {details : RegenerateAdminTokenDetails} (h : inner.tokens.Current generated)
    (hnew : details.hash ∉ generated)
    (hop : inner.applyTokenOp (.regenerateAdminToken details) = .ok (updated, changed)) :
    ∃ token, inner.tokens.repo.getById details.tokenId = some token ∧
      updated.tokens.hashToInfo token.hash = none ∧
      ∃ renewed, updated.tokens.hashToInfo details.hash = some renewed ∧
        renewed.id = token.id := by
  have hhashes : ∀ hash ∈ (TokenCatalogOp.regenerateAdminToken details).hashes,
      hash ∉ generated := by simpa [TokenCatalogOp.hashes] using hnew
  have hcurrent := (applyTokenOp h hhashes hop).1
  have hnone := fun id token => hashToInfo_eq_none_of_changed id token h hhashes hop
  simp only [InnerCatalog.applyTokenOp, TokenRepository.updateAdminTokenHash, bind_eq_ok,
    pure_eq_ok, Prod.mk.injEq, okOr_eq_ok] at hop
  obtain ⟨_, ⟨token, htoken, repo, hupdate, rfl⟩, rfl, -⟩ := hop
  obtain ⟨_, _, rfl⟩ := Repository.update_eq_ok.mp hupdate
  have hmem := Repository.getById_eq_some.mp htoken
  refine ⟨token, htoken, hnone _ token hmem fun found hfound hsame => ?_, _,
    hcurrent.hashToInfo_eq_some.mpr ⟨⟨details.tokenId, Repository.getById_eq_some.mpr
      (IndexMap.mem_entries_insert.mpr (.inl rfl))⟩, rfl⟩, rfl⟩
  rcases IndexMap.mem_entries_insert.mp hfound with heq | ⟨_, hne⟩
  · obtain ⟨-, rfl⟩ := Prod.mk.inj heq
    change details.hash = token.hash at hsame
    exact hnew (hsame ▸ h.generated _ hmem)
  · exact hne rfl

theorem deleted {name : String} (h : inner.tokens.Current generated)
    (hop : inner.applyTokenOp (.deleteToken name) = .ok (updated, changed)) :
    ∃ id, inner.tokens.repo.nameToId name = some id ∧
      ∀ token, inner.tokens.repo.getById id = some token →
        updated.tokens.hashToInfo token.hash = none := by
  have hnone := fun id token => hashToInfo_eq_none_of_changed id token h
    (by simp [TokenCatalogOp.hashes]) hop
  simp only [InnerCatalog.applyTokenOp, TokenRepository.deleteToken, bind_eq_ok, pure_eq_ok,
    Prod.mk.injEq, okOr_eq_ok] at hop
  obtain ⟨_, ⟨id, hid, rfl⟩, rfl, -⟩ := hop
  refine ⟨id, hid, fun token htoken => hnone id token (Repository.getById_eq_some.mp htoken) ?_⟩
  intro found hfound
  exact absurd rfl (IndexMap.mem_entries_erase.mp hfound).2

/-- A hash finds exactly the token that has it now. Regenerating a token and deleting one revoke
the hash that it had: it finds nothing. -/
theorem hashToInfo_iff_current (h : HashesReached inner generated) :
    (∀ hash token, inner.tokens.hashToInfo hash = some token ↔
      (∃ id, inner.tokens.repo.getById id = some token) ∧ token.hash = hash) ∧
    (∀ details updated changed, details.hash ∉ generated →
      inner.applyTokenOp (.regenerateAdminToken details) = .ok (updated, changed) →
        ∃ token, inner.tokens.repo.getById details.tokenId = some token ∧
          updated.tokens.hashToInfo token.hash = none ∧
          ∃ renewed, updated.tokens.hashToInfo details.hash = some renewed ∧
            renewed.id = token.id) ∧
    ∀ name updated changed, inner.applyTokenOp (.deleteToken name) = .ok (updated, changed) →
      ∃ id, inner.tokens.repo.nameToId name = some id ∧
        ∀ token, inner.tokens.repo.getById id = some token →
          updated.tokens.hashToInfo token.hash = none :=
  ⟨fun _ _ => h.current.hashToInfo_eq_some, fun _ _ _ => regenerated h.current,
    fun _ _ _ => deleted h.current⟩

/-- Two tokens are created, then one gets another hash, and then the other is deleted. -/
theorem hashToInfo_iff_current_revoked :
    ∃ created renewed gone, HashesReached created [[7], [9]] ∧
      HashesReached renewed [[7], [9], [8]] ∧ HashesReached gone [[7], [9], [8]] ∧
      (created.tokens.hashToInfo [7]).isSome ∧ (renewed.tokens.hashToInfo [9]).isSome ∧
      renewed.tokens.hashToInfo [7] = none ∧ gone.tokens.hashToInfo [9] = none ∧
      (gone.tokens.hashToInfo [8]).isSome := by
  have hcreated := batch [.createAdminToken ⟨0, "admin", [7], 0, none⟩,
      .createScopedToken ⟨1, "reader", [9], 0, none, []⟩]
    (.initial rfl : HashesReached {} []) (by decide) (by rfl)
  have hrenewed := batch [.regenerateAdminToken ⟨0, [8], 1⟩] hcreated (by decide) (by rfl)
  have hgone := batch [.deleteToken "reader"] hrenewed (by decide) (by rfl)
  obtain ⟨admin, hadmin, hold, _⟩ :=
    (hashToInfo_iff_current hcreated).2.1 ⟨0, [8], 1⟩ _ _ (by decide) (by rfl)
  obtain rfl := Option.some.inj hadmin
  obtain ⟨id, hid, hreader⟩ := (hashToInfo_iff_current hrenewed).2.2 "reader" _ _ (by rfl)
  obtain rfl := Option.some.inj hid
  exact ⟨_, _, _, hcreated, hrenewed, hgone, by rfl, by rfl, hold, hreader _ rfl, by rfl⟩

end HashesReached

end RefluxDb.Catalog
