import PathIdentity.Pool.Registry
import PathIdentity.Proofs.Lookup

/-!
# Buckets as a listing

The buckets of a registry are seen as one list, `Buckets.listing`, of serials with the hash that
each is kept under. Buckets are `Proper` when no hash has two of them and none is empty; `add` and
`prune` keep that, and do to the listing what their names say: `add` puts one pair in, `prune`
filters. For proper buckets the bucket of a hash is the part of the listing with that hash, so the
number of serials that an eviction takes out can be counted in the listing
(`Registry.dead_add_length_prune`).
-/

namespace PathIdentity

namespace Buckets

/-- All serials with their hashes. -/
def listing (b : Buckets) : List (UInt64 × ℕ) := b.flatMap fun (key, bucket) => bucket.map (key, ·)

/-- No hash has two buckets, and no bucket is empty. -/
structure Proper (b : Buckets) : Prop where
  keys : (b.map Prod.fst).Nodup
  ne_nil : ∀ entry ∈ b, entry.2 ≠ []

@[simp] theorem listing_nil : listing [] = [] := rfl

@[simp] theorem listing_cons (key : UInt64) (bucket : List ℕ) (b : Buckets) :
    listing ((key, bucket) :: b) = bucket.map (key, ·) ++ listing b := rfl

theorem mem_listing_iff {b : Buckets} {key : UInt64} {serial : ℕ} :
    (key, serial) ∈ b.listing ↔ ∃ bucket, (key, bucket) ∈ b ∧ serial ∈ bucket := by
  simp only [listing, List.mem_flatMap, List.mem_map, Prod.mk.injEq, Prod.exists]
  constructor
  · rintro ⟨k, bucket, hb, n, hn, rfl, rfl⟩
    exact ⟨bucket, hb, hn⟩
  · rintro ⟨bucket, hb, hn⟩
    exact ⟨key, bucket, hb, serial, hn, rfl, rfl⟩

theorem map_snd_listing (b : Buckets) : b.listing.map Prod.snd = b.serials := by
  simp [listing, serials, List.map_flatMap, Function.comp_def]

theorem proper_nil : Proper [] := ⟨List.nodup_nil, by simp⟩

theorem Proper.tail {entry : UInt64 × List ℕ} {b : Buckets} (h : Proper (entry :: b)) : Proper b :=
  ⟨(List.nodup_cons.1 h.keys).2, fun e he => h.ne_nil e (List.mem_cons_of_mem _ he)⟩

/-! ## Adding a serial -/

theorem listing_add_perm (hash : UInt64) (serial : ℕ) (b : Buckets) :
    (b.add hash serial).listing.Perm ((hash, serial) :: b.listing) := by
  induction b with
  | nil => exact List.Perm.refl _
  | cons entry b ih =>
    obtain ⟨key, bucket⟩ := entry
    rw [add]
    split
    · rename_i heq
      subst heq
      simp only [listing_cons, List.map_append, List.append_assoc]
      exact List.perm_middle
    · exact (ih.append_left _).trans List.perm_middle

theorem mem_keys_add {hash key : UInt64} {serial : ℕ} {b : Buckets} :
    key ∈ (b.add hash serial).map Prod.fst ↔ key = hash ∨ key ∈ b.map Prod.fst := by
  induction b with
  | nil => simp [add]
  | cons entry b ih =>
    obtain ⟨k, bucket⟩ := entry
    rw [add]
    split
    · rename_i heq
      subst heq
      simp
    · rw [List.map_cons, List.mem_cons, ih, List.map_cons, List.mem_cons]
      tauto

theorem Proper.add {b : Buckets} (h : b.Proper) (hash : UInt64) (serial : ℕ) :
    (b.add hash serial).Proper := by
  induction b with
  | nil => exact ⟨List.nodup_singleton _, by simp [Buckets.add]⟩
  | cons entry b ih =>
    obtain ⟨key, bucket⟩ := entry
    have hkey : key ∉ b.map Prod.fst := (List.nodup_cons.1 h.keys).1
    rw [Buckets.add]
    split
    · refine ⟨h.keys, fun e he => ?_⟩
      rcases List.mem_cons.1 he with rfl | he
      · simp
      · exact h.tail.ne_nil e he
    · rename_i hne
      refine ⟨List.nodup_cons.2 ⟨fun hmem => ?_, (ih h.tail).keys⟩, fun e he => ?_⟩
      · rcases mem_keys_add.1 hmem with heq | hmem
        · exact hne heq
        · exact hkey hmem
      · rcases List.mem_cons.1 he with rfl | he
        · exact h.ne_nil _ List.mem_cons_self
        · exact (ih h.tail).ne_nil e he

/-! ## Pruning a bucket -/

theorem prune_cons (hash : UInt64) (keep : ℕ → Bool) (key : UInt64) (bucket : List ℕ)
    (b : Buckets) :
    prune hash keep ((key, bucket) :: b) =
      if key = hash then
        if bucket.filter keep = [] then prune hash keep b
        else (key, bucket.filter keep) :: prune hash keep b
      else (key, bucket) :: prune hash keep b := by
  simp only [prune, List.filterMap_cons, List.isEmpty_iff]
  split_ifs <;> simp_all

/-- The pairs that a pruning keeps. -/
theorem listing_prune (hash : UInt64) (keep : ℕ → Bool) (b : Buckets) :
    (b.prune hash keep).listing = b.listing.filter fun p => p.1 ≠ hash || keep p.2 := by
  induction b with
  | nil => rfl
  | cons entry b ih =>
    obtain ⟨key, bucket⟩ := entry
    rw [prune_cons, listing_cons, List.filter_append, List.filter_map, ← ih]
    split_ifs with hkey hnil
    · subst hkey
      have : bucket.filter ((fun p : UInt64 × ℕ => p.1 ≠ key || keep p.2) ∘ (key, ·)) = [] := by
        simpa [Function.comp_def] using hnil
      rw [this, List.map_nil, List.nil_append]
    · subst hkey
      simp [Function.comp_def]
    · have : bucket.filter ((fun p : UInt64 × ℕ => p.1 ≠ hash || keep p.2) ∘ (key, ·)) = bucket :=
        List.filter_eq_self.2 fun n _ => by simp [hkey]
      rw [this, listing_cons]

theorem keys_prune_sublist (hash : UInt64) (keep : ℕ → Bool) (b : Buckets) :
    ((b.prune hash keep).map Prod.fst).Sublist (b.map Prod.fst) := by
  induction b with
  | nil => exact List.Sublist.refl _
  | cons entry b ih =>
    obtain ⟨key, bucket⟩ := entry
    rw [prune_cons]
    split_ifs
    · exact ih.cons _
    · exact ih.cons_cons _
    · exact ih.cons_cons _

theorem Proper.prune {b : Buckets} (h : b.Proper) (hash : UInt64) (keep : ℕ → Bool) :
    (b.prune hash keep).Proper := by
  refine ⟨h.keys.sublist (keys_prune_sublist hash keep b), ?_⟩
  induction b with
  | nil => simp [Buckets.prune]
  | cons entry b ih =>
    obtain ⟨key, bucket⟩ := entry
    have hb := ih h.tail
    rw [prune_cons]
    split_ifs with hkey hnil
    · exact hb
    · exact List.forall_mem_cons.2 ⟨hnil, hb⟩
    · exact List.forall_mem_cons.2 ⟨h.ne_nil _ List.mem_cons_self, hb⟩

/-! ## The bucket of a hash -/

theorem get?_cons (hash key : UInt64) (bucket : List ℕ) (b : Buckets) :
    get? hash ((key, bucket) :: b) = if hash = key then some bucket else get? hash b :=
  lookup_cons_ite hash key bucket b

theorem get?_eq_some_iff {b : Buckets} (h : b.Proper) {hash : UInt64} {bucket : List ℕ} :
    b.get? hash = some bucket ↔ (hash, bucket) ∈ b := by
  induction b with
  | nil => simp [get?]
  | cons entry b ih =>
    obtain ⟨key, other⟩ := entry
    have hkey : key ∉ b.map Prod.fst := (List.nodup_cons.1 h.keys).1
    rw [get?_cons, List.mem_cons, Prod.mk.injEq]
    split_ifs with heq
    · subst heq
      have : (hash, bucket) ∉ b := fun hmem => hkey (List.mem_map_of_mem hmem)
      simp [this, eq_comm]
    · simp [ih h.tail, heq]

/-- The bucket of a hash is the part of the listing under that hash. -/
theorem getD_get?_eq {b : Buckets} (h : b.Proper) (hash : UInt64) :
    (b.get? hash).getD [] = (b.listing.filter fun p => p.1 = hash).map Prod.snd := by
  induction b with
  | nil => rfl
  | cons entry b ih =>
    obtain ⟨key, bucket⟩ := entry
    have hkey : key ∉ b.map Prod.fst := (List.nodup_cons.1 h.keys).1
    rw [get?_cons, listing_cons, List.filter_append, List.filter_map, List.map_append]
    split_ifs with heq
    · subst heq
      have : (listing b).filter (fun p => p.1 = hash) = [] := by
        refine List.filter_eq_nil_iff.2 fun p hp => ?_
        obtain ⟨other, hother, -⟩ := mem_listing_iff.1 hp
        have : p.1 ∈ b.map Prod.fst := List.mem_map_of_mem hother
        simp only [decide_eq_true_eq]
        rintro rfl
        exact hkey this
      simp [this, Function.comp_def]
    · rw [ih h.tail]
      simp [Function.comp_def, Ne.symm heq]

end Buckets

/-- An element that satisfies `p` counts twice on the left exactly if it satisfies `q` too. -/
theorem countP_add_countP_imp {α : Type} (p q : α → Bool) (l : List α) :
    l.countP p + l.countP (fun a => !p a || q a) = l.length + l.countP fun a => p a && q a := by
  induction l with
  | nil => rfl
  | cons a l ih =>
    simp only [List.countP_cons, List.length_cons]
    cases p a <;> cases q a <;> simp <;> omega

namespace Registry

theorem mem_bucket_iff {r : Registry} (h : r.buckets.Proper) {hash : UInt64} {serial : ℕ} :
    serial ∈ r.bucket hash ↔ (hash, serial) ∈ r.buckets.listing := by
  rw [bucket, Buckets.getD_get?_eq h]
  simp

/-- The serials that an eviction takes out are those of the listing that pruning drops. -/
theorem dead_add_length_prune {r : Registry} (h : r.buckets.Proper) (hash : UInt64)
    (keep : ℕ → Bool) :
    r.dead hash keep + (r.buckets.prune hash keep).listing.length = r.buckets.listing.length := by
  have hbucket : (r.bucket hash).length = r.buckets.listing.countP fun p => p.1 = hash := by
    rw [bucket, Buckets.getD_get?_eq h, List.length_map, List.countP_eq_length_filter]
  have hkept : ((r.bucket hash).filter keep).length =
      r.buckets.listing.countP fun p => decide (p.1 = hash) && keep p.2 := by
    rw [bucket, Buckets.getD_get?_eq h, ← List.countP_eq_length_filter, List.countP_map,
      List.countP_filter]
    exact List.countP_congr fun p _ => by simp [and_comm]
  have hpruned : (r.buckets.prune hash keep).listing.length =
      r.buckets.listing.countP fun p => !decide (p.1 = hash) || keep p.2 := by
    rw [Buckets.listing_prune, ← List.countP_eq_length_filter]
    exact List.countP_congr fun p _ => by simp
  have hle : ((r.bucket hash).filter keep).length ≤ (r.bucket hash).length :=
    List.length_filter_le _ _
  have hsum := countP_add_countP_imp (fun p : UInt64 × ℕ => decide (p.1 = hash))
    (fun p => keep p.2) r.buckets.listing
  rw [dead]
  omega

end Registry

end PathIdentity
