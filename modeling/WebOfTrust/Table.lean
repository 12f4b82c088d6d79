/-!
# `WebOfTrust.Table`: tables in the order of their keys

The program keeps one record per issuer, one row per bucket, one member per key id, and lists them
in the order of their keys wherever they are written. A `Table` is the list of its entries in
strictly ascending key order, so two tables with the same entries are equal. A `KeySet` is a table
that holds its keys and nothing else.

- `Table.find?_insert`: what is found after an insertion;
- `KeySet.mem_add`: membership after an insertion into a set.
-/

set_option autoImplicit false

namespace WebOfTrust

/-- Entries in strictly ascending order of their keys. So there is one table for each choice of
entries, whatever order they were entered in. `Table.ext` and `find?` rest on the field
`ascending`. -/
structure Table (α β : Type) [Ord α] where
  /-- The entries, as a list. -/
  entries : List (α × β)
  /-- The order, strict, so that no key comes twice. -/
  ascending : entries.Pairwise fun p q => compare p.1 q.1 = .lt

namespace Table

variable {α β γ : Type} [Ord α]

/-- The table without entries. `∅` stands for it. -/
def empty : Table α β := ⟨[], .nil⟩

/-- The empty table is written `∅`. -/
instance : EmptyCollection (Table α β) := ⟨empty⟩
/-- It also stands in where some table is needed. It is `empty`. -/
instance : Inhabited (Table α β) := ⟨empty⟩

/-- Tables are compared by their entries. The proof of the order has no part in that. -/
instance [DecidableEq α] [DecidableEq β] : DecidableEq (Table α β) := fun s t =>
  if h : s.entries = t.entries then
    isTrue (by cases s; cases t; cases h; rfl)
  else
    isFalse fun e => h (e ▸ rfl)

/-- Two tables with the same list of entries are equal, as their order is a proof. It is by `cases`
on both structures. -/
@[ext] theorem ext {s t : Table α β} (h : s.entries = t.entries) : s = t := by
  cases s; cases t; cases h; rfl

/-- The keys, ascending. They are distinct, by `ascending`. -/
def keys (t : Table α β) : List α := t.entries.map Prod.fst

/-- The values, in the order of their keys. `keys` and `values` have the same length. -/
def values (t : Table α β) : List β := t.entries.map Prod.snd

/-- The number of entries. It is also the number of keys, as `ascending` is strict. -/
def size (t : Table α β) : Nat := t.entries.length

/-- Whether there is no entry. It looks at the list, so it needs no order. -/
def isEmpty (t : Table α β) : Bool := t.entries.isEmpty

/-! ### Look-up -/

/-- The value of the first entry with the key `k`. -/
def findEntry (k : α) : List (α × β) → Option β
  | [] => none
  | (k', v) :: rest => if compare k k' = .eq then some v else findEntry k rest

/-- The value under `k`. -/
def find? (t : Table α β) (k : α) : Option β := findEntry k t.entries

/-- Whether there is a value under `k`. -/
def contains (t : Table α β) (k : α) : Bool := (t.find? k).isSome

/-- Keys are members of a table. `k ∈ t` is `contains`, as a proposition. -/
instance : Membership α (Table α β) := ⟨fun t k => t.contains k = true⟩

/-- Membership is found out by a look-up. So `if k ∈ t` can be computed. -/
instance (t : Table α β) (k : α) : Decidable (k ∈ t) :=
  inferInstanceAs (Decidable (t.contains k = true))

/-! ### Insertion -/

/-- The entries with `v` under `k`, in place of an earlier value. -/
def insertEntry (k : α) (v : β) : List (α × β) → List (α × β)
  | [] => [(k, v)]
  | (k', v') :: rest =>
    match compare k k' with
    | .lt => (k, v) :: (k', v') :: rest
    | .eq => (k, v) :: rest
    | .gt => (k', v') :: insertEntry k v rest

/-- Every key of the entries after an insertion is the new one or an old one. It is what
`insertEntry_ascending` needs about the rest of the list. -/
theorem mem_insertEntry {k : α} {v : β} {l : List (α × β)} {p : α × β}
    (h : p ∈ insertEntry k v l) : p = (k, v) ∨ p ∈ l := by
  induction l with
  | nil => simpa [insertEntry] using h
  | cons q l ih =>
    simp only [insertEntry] at h
    split at h <;> simp only [List.mem_cons] at h ⊢
    · exact h
    · rcases h with h | h
      · exact .inl h
      · exact .inr (.inr h)
    · rcases h with h | h
      · exact .inr (.inl h)
      · exact (ih h).imp_right .inr

variable [Std.TransOrd α]

/-- An insertion keeps the order. The induction is on the entries, and the case of a new first key
needs the order to be transitive. `Table.insert` carries it as its proof. -/
theorem insertEntry_ascending {k : α} {v : β} {l : List (α × β)}
    (h : l.Pairwise fun p q => compare p.1 q.1 = .lt) :
    (insertEntry k v l).Pairwise fun p q => compare p.1 q.1 = .lt := by
  induction l with
  | nil => simp [insertEntry]
  | cons q l ih =>
    obtain ⟨k', v'⟩ := q
    have htail := (List.pairwise_cons.1 h).2
    have hhead := (List.pairwise_cons.1 h).1
    simp only [insertEntry]
    split
    · next hlt =>
      refine List.pairwise_cons.2 ⟨fun p hp => ?_, h⟩
      rcases List.mem_cons.1 hp with rfl | hp
      · exact hlt
      · exact Std.TransCmp.lt_trans hlt (hhead p hp)
    · next heq =>
      exact List.pairwise_cons.2
        ⟨fun p hp => Std.TransCmp.lt_of_eq_of_lt heq (hhead p hp), htail⟩
    · next hgt =>
      refine List.pairwise_cons.2 ⟨fun p hp => ?_, ih htail⟩
      rcases mem_insertEntry hp with rfl | hp
      · exact Std.OrientedCmp.gt_iff_lt.1 hgt
      · exact hhead p hp

/-- The table with `v` under `k`. -/
def insert (t : Table α β) (k : α) (v : β) : Table α β :=
  ⟨insertEntry k v t.entries, insertEntry_ascending t.ascending⟩

/-- The table of a list of entries; of two with one key the later stays. It inserts them from the
first to the last. -/
def ofList (l : List (α × β)) : Table α β :=
  l.foldl (fun t p => t.insert p.1 p.2) ∅

omit [Std.TransOrd α] in
/-- What is found among entries after an insertion, the lemma behind `find?_insert`. -/
theorem findEntry_insertEntry [Std.LawfulEqOrd α] [DecidableEq α] {k k' : α} {v : β}
    {l : List (α × β)} :
    findEntry k' (insertEntry k v l) = if k' = k then some v else findEntry k' l := by
  induction l with
  | nil => simp [insertEntry, findEntry]
  | cons q l ih =>
    obtain ⟨j, w⟩ := q
    simp only [insertEntry]
    split
    · simp [findEntry]
    · next heq =>
      obtain rfl := Std.LawfulEqCmp.eq_of_compare heq
      by_cases h : k' = k <;> simp [findEntry, h]
    · next hgt =>
      have hne : k ≠ j := by
        rintro rfl
        simp at hgt
      simp only [findEntry, ih]
      by_cases h : k' = k
      · subst h; simp [hne]
      · simp [h]

/-- An insertion is seen under its own key and under no other. Later proofs about tables use this
and need not look at the list. -/
theorem find?_insert [Std.LawfulEqOrd α] [DecidableEq α] (t : Table α β) (k k' : α) (v : β) :
    (t.insert k v).find? k' = if k' = k then some v else t.find? k' :=
  findEntry_insertEntry

/-! ### Values in place -/

omit [Std.TransOrd α] in
/-- New values do not disturb the order of the keys. `Table.map` carries it as its proof. -/
theorem pairwise_mapEntries {f : α → β → γ} {l : List (α × β)}
    (h : l.Pairwise fun p q => compare p.1 q.1 = .lt) :
    (l.map fun p => (p.1, f p.1 p.2)).Pairwise fun p q => compare p.1 q.1 = .lt := by
  rw [List.pairwise_map]
  exact h

/-- The table with every value replaced. The keys stay, so the order does. -/
def map (f : α → β → γ) (t : Table α β) : Table α γ :=
  ⟨t.entries.map fun p => (p.1, f p.1 p.2), pairwise_mapEntries t.ascending⟩

/-- The entries whose key satisfies `p`. -/
def filterKeys (p : α → Bool) (t : Table α β) : Table α β :=
  ⟨t.entries.filter fun e => p e.1, t.ascending.filter _⟩

end Table

/-! ### Sets -/

/-- A set whose members are listed in ascending order. It is a `Table` without values, so lemmas on
tables apply. -/
abbrev KeySet (α : Type) [Ord α] := Table α Unit

namespace KeySet

variable {α : Type} [Ord α] [Std.TransOrd α]

/-- The set with `k` as a member. -/
def add (s : KeySet α) (k : α) : KeySet α := Table.insert s k ()

/-- The set of the members of a list. `mem_add` says what one addition does. -/
def ofList (l : List α) : KeySet α := l.foldl add ∅

/-- The members of a set with a further one are that and the old ones. It is `find?_insert` for
sets. -/
theorem mem_add [Std.LawfulEqOrd α] [DecidableEq α] {s : KeySet α} {j k : α} :
    k ∈ s.add j ↔ k = j ∨ k ∈ s := by
  simp only [Membership.mem, Table.contains, add, Table.find?_insert]
  by_cases h : k = j <;> simp [h]

end KeySet

end WebOfTrust
