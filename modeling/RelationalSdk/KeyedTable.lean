import Mathlib

/-!
# Tables ordered by their keys

A `Table` is a finite map kept as a list of entries with strictly increasing keys, so
iterating it visits the keys in order, each once. `get` reads a key, `insert` writes
one, `remove` deletes one, and the two ranges are the entries from a start key on,
with or without an end. Every operation is characterised by what `get` reads after it
(`get_insert`, `get_remove`), and a range by its entries (`mem_rangeFrom`,
`mem_range`).

Keys that are words in lexicographic order have one more fact. The words that extend
a word `p` form a block of the order that starts at `p`, and a range from `p` to `p`
followed by a bound `m` holds those that go on with a word below `m`
(`le_and_lt_append_iff`). A scan from `p` that stops at the first key which does not extend
`p` finds every key that does (`scan_eq_filter`), and `pageLoop` reads a page of them
(`pageLoop_rangeFrom`). When the keys that extend `p` encode the records of one group, a scan
gives each record of the group once (`exists_scan_eq`), and so do its pages (`pages_pageLoop`).
-/

namespace KeyedTable

variable {κ α : Type*} [LinearOrder κ]

/-- Entries with strictly increasing keys. -/
structure Table (κ α : Type*) [LinearOrder κ] where
  /-- The entries, in iteration order. -/
  entries : List (κ × α)
  sorted : entries.Pairwise fun a b => a.1 < b.1

/-- Write `v` at `k`, at the place of `k` in the order. -/
def insertEntry (k : κ) (v : α) : List (κ × α) → List (κ × α)
  | [] => [(k, v)]
  | e :: l =>
    if k < e.1 then (k, v) :: e :: l
    else if k = e.1 then (k, v) :: l
    else e :: insertEntry k v l

theorem mem_insertEntry {k : κ} {v : α} {e : κ × α} :
    ∀ {l : List (κ × α)}, l.Pairwise (fun a b => a.1 < b.1) →
      (e ∈ insertEntry k v l ↔ e = (k, v) ∨ e.1 ≠ k ∧ e ∈ l)
  | [], _ => by simp [insertEntry]
  | e' :: l, h => by
    obtain ⟨he', hl⟩ := List.pairwise_cons.mp h
    rw [insertEntry]
    split_ifs with hlt heq
    · have habove : ∀ b ∈ e' :: l, b.1 ≠ k := by
        intro b hb
        rcases List.mem_cons.mp hb with rfl | hb
        · exact ne_of_gt hlt
        · exact ne_of_gt (hlt.trans (he' b hb))
      rw [List.mem_cons]
      exact or_congr_right ⟨fun he => ⟨habove e he, he⟩, And.right⟩
    · have habove : ∀ b ∈ l, b.1 ≠ k := fun b hb => ne_of_gt (heq ▸ he' b hb)
      rw [List.mem_cons, List.mem_cons]
      refine or_congr_right ⟨fun he => ⟨habove e he, Or.inr he⟩, ?_⟩
      rintro ⟨hne, rfl | he⟩
      · exact absurd heq.symm hne
      · exact he
    · rw [List.mem_cons, mem_insertEntry hl, List.mem_cons]
      constructor
      · rintro (rfl | he | ⟨hne, he⟩)
        · exact Or.inr ⟨Ne.symm heq, Or.inl rfl⟩
        · exact Or.inl he
        · exact Or.inr ⟨hne, Or.inr he⟩
      · rintro (he | ⟨hne, rfl | he⟩)
        · exact Or.inr (Or.inl he)
        · exact Or.inl rfl
        · exact Or.inr (Or.inr ⟨hne, he⟩)

theorem pairwise_insertEntry (k : κ) (v : α) :
    ∀ {l : List (κ × α)}, l.Pairwise (fun a b => a.1 < b.1) →
      (insertEntry k v l).Pairwise fun a b => a.1 < b.1
  | [], _ => by simp [insertEntry]
  | e :: l, h => by
    obtain ⟨he, hl⟩ := List.pairwise_cons.mp h
    rw [insertEntry]
    split_ifs with hlt heq
    · refine List.pairwise_cons.mpr ⟨fun b hb => ?_, h⟩
      rcases List.mem_cons.mp hb with rfl | hb
      · exact hlt
      · exact hlt.trans (he b hb)
    · exact List.pairwise_cons.mpr ⟨fun b hb => heq ▸ he b hb, hl⟩
    · refine List.pairwise_cons.mpr ⟨fun b hb => ?_, pairwise_insertEntry k v hl⟩
      rcases (mem_insertEntry hl).mp hb with rfl | ⟨-, hb⟩
      · exact lt_of_le_of_ne (le_of_not_gt hlt) (Ne.symm heq)
      · exact he b hb

/-- Writing a key that is not there puts an entry between the others. -/
theorem exists_insertEntry_eq {k : κ} (v : α) :
    ∀ {l : List (κ × α)}, (∀ e ∈ l, e.1 ≠ k) →
      ∃ l₁ l₂, l = l₁ ++ l₂ ∧ insertEntry k v l = l₁ ++ (k, v) :: l₂
  | [], _ => ⟨[], [], rfl, rfl⟩
  | e :: l, h => by
    obtain ⟨he, hl⟩ := List.forall_mem_cons.mp h
    rw [insertEntry]
    split_ifs with hlt heq
    · exact ⟨[], e :: l, rfl, rfl⟩
    · exact absurd heq.symm he
    · obtain ⟨l₁, l₂, hold, hnew⟩ := exists_insertEntry_eq v hl
      exact ⟨e :: l₁, l₂, congrArg (e :: ·) hold, congrArg (e :: ·) hnew⟩

namespace Table

/-- No entries. -/
def empty : Table κ α :=
  ⟨[], List.Pairwise.nil⟩

/-- The value at a key. -/
def get (t : Table κ α) (k : κ) : Option α :=
  (t.entries.find? fun e => e.1 = k).map Prod.snd

/-- Write a key. -/
def insert (t : Table κ α) (k : κ) (v : α) : Table κ α :=
  ⟨insertEntry k v t.entries, pairwise_insertEntry k v t.sorted⟩

/-- Delete a key. -/
def remove (t : Table κ α) (k : κ) : Table κ α :=
  ⟨t.entries.filter fun e => e.1 ≠ k, t.sorted.filter _⟩

/-- The entries from `start` on. -/
def rangeFrom (t : Table κ α) (start : κ) : List (κ × α) :=
  t.entries.filter fun e => start ≤ e.1

/-- The entries from `start` on, below `stop`. -/
def range (t : Table κ α) (start stop : κ) : List (κ × α) :=
  t.entries.filter fun e => start ≤ e.1 ∧ e.1 < stop

instance [DecidableEq α] : DecidableEq (Table κ α) := fun t u =>
  decidable_of_iff (t.entries = u.entries) (by cases t; cases u; simp)

theorem nodup_keys (t : Table κ α) : (t.entries.map Prod.fst).Nodup :=
  List.pairwise_map.mpr (t.sorted.imp fun h => ne_of_lt h)

/-- Two entries with one key are one entry. -/
theorem eq_of_key_eq (t : Table κ α) {a b : κ × α} (ha : a ∈ t.entries) (hb : b ∈ t.entries)
    (h : a.1 = b.1) : a = b :=
  List.inj_on_of_nodup_map t.nodup_keys ha hb h

theorem get_eq_some_iff (t : Table κ α) {k : κ} {v : α} :
    t.get k = some v ↔ (k, v) ∈ t.entries := by
  unfold get
  rw [Option.map_eq_some_iff]
  constructor
  · rintro ⟨e, he, rfl⟩
    have hk : e.1 = k := by simpa using List.find?_some he
    rw [← hk]
    exact List.mem_of_find?_eq_some he
  · intro h
    cases hf : t.entries.find? fun e => e.1 = k with
    | none =>
      have := List.find?_eq_none.mp hf (k, v) h
      simp at this
    | some e =>
      have hk : e.1 = k := by simpa using List.find?_some hf
      have he := t.eq_of_key_eq (List.mem_of_find?_eq_some hf) h hk
      exact ⟨e, rfl, by rw [he]⟩

theorem get_eq_none_iff (t : Table κ α) {k : κ} : t.get k = none ↔ ∀ v, (k, v) ∉ t.entries := by
  rw [Option.eq_none_iff_forall_ne_some]
  exact forall_congr' fun v => not_congr t.get_eq_some_iff

@[simp] theorem get_empty (k : κ) : (empty : Table κ α).get k = none :=
  rfl

@[simp] theorem entries_empty : (empty : Table κ α).entries = [] :=
  rfl

/-- The entries after a write. -/
theorem mem_insert (t : Table κ α) {k : κ} {v : α} {e : κ × α} :
    e ∈ (t.insert k v).entries ↔ e = (k, v) ∨ e.1 ≠ k ∧ e ∈ t.entries :=
  mem_insertEntry t.sorted

theorem mem_remove (t : Table κ α) {k : κ} {e : κ × α} :
    e ∈ (t.remove k).entries ↔ e.1 ≠ k ∧ e ∈ t.entries := by
  simp [remove, and_comm]

theorem exists_entries_insert (t : Table κ α) {k : κ} (v : α) (h : t.get k = none) :
    ∃ l₁ l₂, t.entries = l₁ ++ l₂ ∧ (t.insert k v).entries = l₁ ++ (k, v) :: l₂ := by
  refine exists_insertEntry_eq v fun e he hk => ?_
  exact t.get_eq_none_iff.mp h e.2 (hk ▸ he)

theorem entries_insert_perm (t : Table κ α) {k : κ} (v : α) (h : t.get k = none) :
    (t.insert k v).entries.Perm ((k, v) :: t.entries) := by
  obtain ⟨l₁, l₂, hold, hnew⟩ := t.exists_entries_insert v h
  rw [hold, hnew]
  exact List.perm_middle

/-- A write changes the key it writes and no other. -/
theorem get_insert (t : Table κ α) (k : κ) (v : α) (k' : κ) :
    (t.insert k v).get k' = if k' = k then some v else t.get k' := by
  ext v'
  rw [get_eq_some_iff, mem_insert]
  split_ifs with h
  · simp [h, eq_comm]
  · simp [h, get_eq_some_iff]

@[simp] theorem get_insert_self (t : Table κ α) (k : κ) (v : α) :
    (t.insert k v).get k = some v := by
  simp [get_insert]

theorem get_insert_of_ne (t : Table κ α) {k k' : κ} (v : α) (h : k' ≠ k) :
    (t.insert k v).get k' = t.get k' := by
  simp [get_insert, h]

theorem isSome_get_insert_iff (t : Table κ α) (k : κ) (v : α) (k' : κ) :
    ((t.insert k v).get k').isSome ↔ k' = k ∨ (t.get k').isSome := by
  rw [get_insert]
  split_ifs with h <;> simp [h]

/-- Of several entries with one key the last one stays. -/
theorem get_foldl_insert (es : List (κ × α)) (t : Table κ α) (k : κ) :
    (es.foldl (fun t e => t.insert e.1 e.2) t).get k =
      ((es.reverse.find? fun e => e.1 = k).map Prod.snd).or (t.get k) := by
  induction es generalizing t with
  | nil => rfl
  | cons e es ih =>
    rw [List.foldl_cons, ih, get_insert, List.reverse_cons, List.find?_append, Option.map_or,
      Option.or_assoc]
    congr 1
    by_cases hk : k = e.1
    · rw [if_pos hk, List.find?_cons_of_pos (by simpa using hk.symm)]
      rfl
    · rw [if_neg hk, List.find?_cons_of_neg (by simpa using Ne.symm hk)]
      rfl

/-- A deletion changes the key it deletes and no other. -/
theorem get_remove (t : Table κ α) (k k' : κ) :
    (t.remove k).get k' = if k' = k then none else t.get k' := by
  ext v
  rw [get_eq_some_iff, mem_remove]
  split_ifs with h
  · simp [h]
  · simp [h, get_eq_some_iff]

theorem mem_rangeFrom (t : Table κ α) {start : κ} {e : κ × α} :
    e ∈ t.rangeFrom start ↔ e ∈ t.entries ∧ start ≤ e.1 := by
  simp [rangeFrom]

theorem mem_range (t : Table κ α) {start stop : κ} {e : κ × α} :
    e ∈ t.range start stop ↔ e ∈ t.entries ∧ start ≤ e.1 ∧ e.1 < stop := by
  simp [range]

theorem nodup_range (t : Table κ α) (start stop : κ) :
    ((t.range start stop).map Prod.fst).Nodup :=
  List.pairwise_map.mpr ((t.sorted.filter _).imp fun h => ne_of_lt h)

/-! ### The entries up to the first key that is refused -/

section Stopping

variable (t : Table κ α) {start k : κ} {p : κ → Bool}

theorem pairwise_takeWhile_rangeFrom (start : κ) (p : κ → Bool) :
    ((t.rangeFrom start).takeWhile fun e => p e.1).Pairwise fun a b => a.1 < b.1 :=
  (t.sorted.filter _).sublist (List.takeWhile_sublist _)

theorem mem_takeWhile_rangeFrom {e : κ × α} :
    e ∈ ((t.rangeFrom start).takeWhile fun e => p e.1) ↔
      e ∈ t.rangeFrom start ∧ ∀ e' ∈ t.rangeFrom start, e'.1 ≤ e.1 → p e'.1 := by
  have hsorted : (t.rangeFrom start).Pairwise fun a b => a.1 < b.1 := t.sorted.filter _
  generalize t.rangeFrom start = l at hsorted
  induction l with
  | nil => simp
  | cons x l ih =>
    obtain ⟨hx, hl⟩ := List.pairwise_cons.mp hsorted
    rw [List.takeWhile_cons, List.forall_mem_cons, List.mem_cons]
    split_ifs with hp
    · rw [List.mem_cons]
      constructor
      · rintro (rfl | he)
        · exact ⟨Or.inl rfl, fun _ => hp, fun e' he' hle => absurd hle (not_le.mpr (hx e' he'))⟩
        · obtain ⟨he, hall⟩ := (ih hl).mp he
          exact ⟨Or.inr he, fun _ => hp, hall⟩
      · rintro ⟨rfl | he, -, hall⟩
        · exact Or.inl rfl
        · exact Or.inr ((ih hl).mpr ⟨he, hall⟩)
    · refine iff_of_false List.not_mem_nil ?_
      rintro ⟨rfl | he, hfirst, -⟩
      · exact hp (hfirst le_rfl)
      · exact hp (hfirst (hx e he).le)

/-- A write behind these entries that is itself refused leaves them as they are. -/
theorem takeWhile_rangeFrom_insert (v : α) (hk : p k = false)
    (hlt : start ≤ k → ∀ e ∈ (t.rangeFrom start).takeWhile (fun e => p e.1), e.1 < k) :
    (((t.insert k v).rangeFrom start).takeWhile fun e => p e.1) =
      (t.rangeFrom start).takeWhile fun e => p e.1 := by
  have hirrefl : Std.Irrefl fun a b : κ × α => a.1 < b.1 := ⟨fun a => lt_irrefl a.1⟩
  have hantisymm : Std.Antisymm fun a b : κ × α => a.1 < b.1 :=
    ⟨fun a b hab hba => absurd hab hba.not_gt⟩
  refine ((t.insert k v).pairwise_takeWhile_rangeFrom start p).eq_of_mem_iff
    (t.pairwise_takeWhile_rangeFrom start p) fun e => ?_
  have hcongr : e ∈ ((t.rangeFrom start).takeWhile fun e => p e.1) ↔ _ := t.mem_takeWhile_rangeFrom
  rw [mem_takeWhile_rangeFrom]
  simp only [mem_rangeFrom, mem_insert]
  constructor
  · rintro ⟨⟨rfl | ⟨hne, he⟩, hstart⟩, hall⟩
    · exact absurd (hall _ ⟨Or.inl rfl, hstart⟩ le_rfl) (by simp [hk])
    · refine hcongr.mpr ⟨t.mem_rangeFrom.mpr ⟨he, hstart⟩, fun e' he' hle => ?_⟩
      obtain ⟨he', hstart'⟩ := t.mem_rangeFrom.mp he'
      by_cases hkey : e'.1 = k
      · exact hkey ▸ hall (k, v) ⟨Or.inl rfl, hkey ▸ hstart'⟩ (hkey ▸ hle)
      · exact hall e' ⟨Or.inr ⟨hkey, he'⟩, hstart'⟩ hle
  · intro hmem
    obtain ⟨he, hall⟩ := hcongr.mp hmem
    obtain ⟨he, hstart⟩ := t.mem_rangeFrom.mp he
    have hbefore : start ≤ k → e.1 < k := fun hsk => hlt hsk e hmem
    refine ⟨⟨Or.inr ⟨fun heq => ?_, he⟩, hstart⟩, ?_⟩
    · exact absurd heq (hbefore (heq ▸ hstart)).ne
    · rintro e' ⟨rfl | ⟨-, he'⟩, hstart'⟩ hle
      · exact absurd hle (not_le.mpr (hbefore hstart'))
      · exact hall e' (t.mem_rangeFrom.mpr ⟨he', hstart'⟩) hle

end Stopping

end Table

/-! ## Words in lexicographic order -/

section Words

variable {β : Type*} [LinearOrder β]

/-- The words from `p` on and below `p` followed by `m` are the words that extend `p`
by a word below `m`. -/
theorem le_and_lt_append_iff {p m k : List β} :
    p ≤ k ∧ k < p ++ m ↔ ∃ r, k = p ++ r ∧ r < m := by
  rw [← not_lt]
  induction p generalizing k with
  | nil => simp
  | cons x p ih =>
    cases k with
    | nil => simp
    | cons y k =>
      rw [List.cons_append, List.cons_lt_cons_iff, List.cons_lt_cons_iff]
      constructor
      · rintro ⟨hge, hlt | ⟨rfl, hk⟩⟩
        · exact absurd (Or.inl hlt) hge
        · obtain ⟨r, rfl, hr⟩ := ih.mp ⟨fun h => hge (Or.inr ⟨rfl, h⟩), hk⟩
          exact ⟨r, rfl, hr⟩
      · rintro ⟨r, hr, hlt⟩
        obtain ⟨rfl, rfl⟩ := List.cons.inj hr
        obtain ⟨hp, hk⟩ := ih.mpr ⟨r, rfl, hlt⟩
        refine ⟨?_, Or.inr ⟨rfl, hk⟩⟩
        rintro (h | ⟨-, h⟩)
        · exact lt_irrefl _ h
        · exact hp h

/-- The words between `p` and an extension of it extend `p`. -/
theorem isPrefix_of_le_of_le {p r k : List β} (hp : p ≤ k) (hk : k ≤ p ++ r) :
    List.IsPrefix p k := by
  rcases hk.eq_or_lt with rfl | hlt
  · exact List.prefix_append p r
  · obtain ⟨r', rfl, -⟩ := le_and_lt_append_iff.mp ⟨hp, hlt⟩
    exact List.prefix_append p r'

theorem le_append (p r : List β) : p ≤ p ++ r := by
  rw [← not_lt]
  induction p with
  | nil => simp
  | cons x p ih =>
    rw [List.cons_append, List.cons_lt_cons_iff]
    rintro (h | ⟨-, h⟩)
    · exact lt_irrefl x h
    · exact ih h

theorem append_lt_append_left_iff {p a b : List β} : p ++ a < p ++ b ↔ a < b := by
  induction p with
  | nil => rfl
  | cons x p ih => simp [ih]

/-- Of two words of one length, the smaller one stays smaller whatever follows. -/
theorem append_lt_append_of_lt {a b : List β} (h : a < b) (hlength : a.length = b.length)
    (s t : List β) : a ++ s < b ++ t := by
  induction a generalizing b with
  | nil =>
    rw [List.eq_nil_of_length_eq_zero hlength.symm] at h
    exact absurd h (lt_irrefl _)
  | cons x a ih =>
    cases b with
    | nil => simp at hlength
    | cons y b =>
      rw [List.cons_append, List.cons_append, List.cons_lt_cons_iff]
      rcases List.cons_lt_cons_iff.mp h with hxy | ⟨rfl, hab⟩
      · exact Or.inl hxy
      · exact Or.inr ⟨rfl, ih hab (by simpa using hlength)⟩

/-- The entries from `p` on, up to the first whose key does not extend `p`. -/
def Table.scan {α : Type*} (t : Table (List β) α) (p : List β) : List (List β × α) :=
  (t.rangeFrom p).takeWhile fun e => p.isPrefixOf e.1

theorem takeWhile_filter_of_sorted {α : Type*} (p : List β) {l : List (List β × α)}
    (h : l.Pairwise fun a b => a.1 < b.1) :
    (l.filter fun e => p ≤ e.1).takeWhile (fun e => p.isPrefixOf e.1) =
      l.filter fun e => p.isPrefixOf e.1 := by
  induction l with
  | nil => rfl
  | cons e l ih =>
    obtain ⟨he, hl⟩ := List.pairwise_cons.mp h
    by_cases hpre : List.IsPrefix p e.1
    · obtain ⟨r, hr⟩ := hpre
      have hle : p ≤ e.1 := hr ▸ le_append p r
      have hmatch : p.isPrefixOf e.1 = true := List.isPrefixOf_iff_prefix.mpr ⟨r, hr⟩
      simp only [List.filter_cons, hle, hmatch, decide_true, if_true, List.takeWhile_cons, ih hl]
    · have hmatch : p.isPrefixOf e.1 = false :=
        Bool.eq_false_iff.mpr fun h => hpre (List.isPrefixOf_iff_prefix.mp h)
      by_cases hle : p ≤ e.1
      · -- nothing after `e` extends `p`, since `e` would lie between
        have hnone : l.filter (fun b => p.isPrefixOf b.1) = [] := by
          refine List.filter_eq_nil_iff.mpr fun b hb hb' => hpre ?_
          obtain ⟨r, hr⟩ := List.isPrefixOf_iff_prefix.mp hb'
          exact isPrefix_of_le_of_le hle (hr ▸ (he b hb).le)
        simp [hle, hmatch, hnone]
      · simp [hle, hmatch, ih hl]

/-- A scan finds the keys that extend `p`, all of them. -/
theorem Table.scan_eq_filter {α : Type*} (t : Table (List β) α) (p : List β) :
    t.scan p = t.entries.filter fun e => p.isPrefixOf e.1 :=
  takeWhile_filter_of_sorted p t.sorted

theorem Table.mem_scan {α : Type*} (t : Table (List β) α) {p : List β} {e : List β × α} :
    e ∈ t.scan p ↔ e ∈ t.entries ∧ List.IsPrefix p e.1 := by
  rw [Table.scan_eq_filter, List.mem_filter, List.isPrefixOf_iff_prefix]

theorem Table.pairwise_scan {α : Type*} (t : Table (List β) α) (p : List β) :
    (t.scan p).Pairwise fun a b => a.1 < b.1 := by
  rw [Table.scan_eq_filter]
  exact t.sorted.filter _

/-- The records of one group, when the keys that extend `p` are the codes of the records that
are stored. -/
theorem Table.exists_scan_eq {α ρ : Type*} (t : Table (List β) α) {p : List β}
    {enc : ρ → List β} (henc : Function.Injective enc) {stored : ρ → Option α}
    (hscan : ∀ e ∈ t.scan p, ∃ r, enc r = e.1 ∧ stored r = some e.2)
    (hstored : ∀ r v, stored r = some v → (enc r, v) ∈ t.scan p) :
    ∃ rs : List (ρ × α), (rs.map Prod.fst).Nodup ∧ (∀ r v, (r, v) ∈ rs ↔ stored r = some v) ∧
      rs.Pairwise (fun a b => enc a.1 < enc b.1) ∧
      t.scan p = rs.map fun x => (enc x.1, x.2) := by
  classical
  rcases (t.scan p).eq_nil_or_concat with hnil | ⟨_, e₀, hlast⟩
  · refine ⟨[], by simp, fun r v => ?_, by simp, by simp [hnil]⟩
    refine ⟨fun h => (List.not_mem_nil h).elim, fun h => ?_⟩
    have hmem := hstored r v h
    rw [hnil] at hmem
    exact (List.not_mem_nil hmem).elim
  · obtain ⟨r₀, -⟩ := hscan e₀ (by simp [hlast])
    have : Nonempty ρ := ⟨r₀⟩
    choose! dec hdec using hscan
    have hrs : t.scan p = ((t.scan p).map fun e => (dec e, e.2)).map fun x => (enc x.1, x.2) := by
      rw [List.map_map]
      refine (List.map_id _).symm.trans (List.map_congr_left fun e he => ?_)
      exact Prod.ext (hdec e he).1.symm rfl
    have hsorted : ((t.scan p).map fun e => (dec e, e.2)).Pairwise
        fun a b => enc a.1 < enc b.1 := by
      refine List.pairwise_map.mpr ((t.pairwise_scan p).imp_of_mem fun ha hb hlt => ?_)
      rwa [(hdec _ ha).1, (hdec _ hb).1]
    refine ⟨_, ?_, fun r v => ?_, hsorted, hrs⟩
    · exact List.pairwise_map.mpr (hsorted.imp fun hlt heq => ne_of_lt hlt (congrArg enc heq))
    · constructor
      · intro h
        obtain ⟨e, he, heq⟩ := List.mem_map.mp h
        obtain ⟨rfl, rfl⟩ := Prod.mk.inj heq
        exact (hdec e he).2
      · intro h
        have hmem := hstored r v h
        refine List.mem_map.mpr ⟨(enc r, v), hmem, ?_⟩
        exact Prod.ext (henc (hdec _ hmem).1) rfl

end Words

/-! ## Pages -/

/-- The first `n` pages of a list are its first entries. -/
theorem flatMap_pages {γ : Type*} (l : List γ) (size n : Nat) :
    (List.range n).flatMap (fun i => (l.drop (i * size)).take size) = l.take (n * size) := by
  induction n with
  | zero => simp
  | succ n ih =>
    rw [List.range_succ, List.flatMap_append, ih, List.flatMap_singleton, Nat.succ_mul,
      List.take_add]

/-- Enough pages are the whole list. -/
theorem flatMap_pages_eq {γ : Type*} {l : List γ} {size n : Nat} (hsize : 0 < size)
    (hn : l.length ≤ n) :
    (List.range n).flatMap (fun i => (l.drop (i * size)).take size) = l := by
  rw [flatMap_pages, List.take_of_length_le]
  exact hn.trans (Nat.le_mul_of_pos_right n hsize)

/-- The concatenation of the first `n` pages of a listing that takes a limit and an offset. -/
def pages {γ : Type*} (list : Nat → Nat → List γ) (limit n : Nat) : List γ :=
  (List.range n).flatMap fun i => list limit (i * limit)

section PageLoop

variable {β α γ : Type*} [LinearOrder β] (p : List β) (read : List β × α → Option γ)
  (limit offset : Nat)

/-- Skip `offset` of the entries whose keys extend `p`, then collect what is read from those
after them, until there are `limit`. -/
def pageLoop : Nat → List γ → List (List β × α) → List γ
  | _, results, [] => results
  | skipped, results, e :: es =>
    if ¬p.isPrefixOf e.1 then results
    else if skipped < offset then pageLoop (skipped + 1) results es
    else if limit ≤ results.length then results
    else
      match read e with
      | none => pageLoop skipped results es
      | some v => pageLoop skipped (results ++ [v]) es

variable {p read limit offset}

/-- Once nothing is left to skip, the loop collects until the page is full. -/
theorem pageLoop_collect : ∀ {es : List (List β × α)} {results : List γ},
    results.length ≤ limit → pageLoop p read limit offset offset results es =
      results ++ ((es.takeWhile fun e => p.isPrefixOf e.1).filterMap read).take
        (limit - results.length)
  | [], results, _ => by simp [pageLoop]
  | e :: es, results, hroom => by
    rw [pageLoop, List.takeWhile_cons]
    by_cases hp : p.isPrefixOf e.1
    · rw [if_neg (by simpa using hp), if_neg (lt_irrefl _), if_pos hp]
      split_ifs with hfull
      · simp [Nat.sub_eq_zero_of_le hfull]
      · cases hread : read e with
        | none => rw [List.filterMap_cons_none hread, pageLoop_collect hroom]
        | some v =>
          have hroom' : (results ++ [v]).length ≤ limit := by simp; omega
          have hleft : limit - results.length = limit - (results ++ [v]).length + 1 := by
            simp; omega
          rw [List.filterMap_cons_some hread, hleft, List.take_succ_cons]
          exact (pageLoop_collect hroom').trans (by simp)
    · rw [if_pos (by simpa using hp), if_neg hp]
      simp

/-- The loop drops the entries it skips and collects a page of those after them. -/
theorem pageLoop_eq : ∀ {es : List (List β × α)} {skipped : Nat}, skipped ≤ offset →
    pageLoop p read limit offset skipped [] es =
      (((es.takeWhile fun e => p.isPrefixOf e.1).drop (offset - skipped)).filterMap read).take
        limit
  | [], skipped, _ => by simp [pageLoop]
  | e :: es, skipped, hskip => by
    rcases hskip.lt_or_eq with hlt | rfl
    · rw [pageLoop, List.takeWhile_cons]
      by_cases hp : p.isPrefixOf e.1
      · have hleft : offset - skipped = offset - (skipped + 1) + 1 := by omega
        rw [if_neg (by simpa using hp), if_pos hlt, if_pos hp, hleft, pageLoop_eq hlt,
          List.drop_succ_cons]
      · rw [if_pos (by simpa using hp), if_neg hp]
        simp
    · rw [pageLoop_collect (Nat.zero_le limit)]
      simp

/-- A page of a table. -/
theorem pageLoop_rangeFrom (t : Table (List β) α) :
    pageLoop p read limit offset 0 [] (t.rangeFrom p) =
      (((t.scan p).drop offset).filterMap read).take limit := by
  rw [pageLoop_eq (Nat.zero_le offset), Nat.sub_zero]
  rfl

/-- A page of a table whose keys that extend `p` can all be read. -/
theorem pageLoop_rangeFrom_of_map {t : Table (List β) α} {vs : List γ}
    (hread : (t.scan p).map read = vs.map some) :
    pageLoop p read limit offset 0 [] (t.rangeFrom p) = (vs.drop offset).take limit := by
  have hdrop : ((t.scan p).drop offset).map read = (vs.drop offset).map some := by
    rw [List.map_drop, hread, List.map_drop]
  have hall : ((t.scan p).drop offset).filterMap read = vs.drop offset := by
    have hid := congrArg (List.filterMap id) hdrop
    rwa [List.filterMap_map, List.filterMap_map, Function.id_comp, Function.id_comp,
      List.filterMap_some] at hid
  rw [pageLoop_rangeFrom, hall]

/-- Enough pages of a table are what is read from the keys that extend `p`, when all of them
can be read. -/
theorem pages_pageLoop {t : Table (List β) α} {vs : List γ} {n : Nat}
    (hread : (t.scan p).map read = vs.map some) (hlimit : 0 < limit) (hn : vs.length ≤ n) :
    pages (fun limit offset => pageLoop p read limit offset 0 [] (t.rangeFrom p)) limit n = vs := by
  unfold pages
  simp only [pageLoop_rangeFrom_of_map hread]
  exact flatMap_pages_eq hlimit hn

/-- What is read from one of the first entries is on the page. -/
theorem mem_take_filterMap {read : α → Option γ} {l : List α} {i : Nat} (hi : i < l.length)
    (hpage : i < limit) {v : γ} (hv : read l[i] = some v) : v ∈ (l.filterMap read).take limit := by
  have hsplit : l.filterMap read =
      (l.take (i + 1)).filterMap read ++ (l.drop (i + 1)).filterMap read := by
    rw [← List.filterMap_append, List.take_append_drop]
  have hshort : ((l.take (i + 1)).filterMap read).length ≤ limit := by
    have hle := List.length_filterMap_le read (l.take (i + 1))
    rw [List.length_take] at hle
    omega
  have hmem : v ∈ (l.take (i + 1)).filterMap read := by
    rw [List.mem_filterMap]
    exact ⟨l[i], List.mem_take_iff_getElem.mpr ⟨i, by omega, rfl⟩, hv⟩
  rw [hsplit, List.take_append, List.take_of_length_le hshort]
  exact List.mem_append_left _ hmem

/-- Enough pages of a table show all that can be read from the keys that extend `p`. -/
theorem mem_pages_pageLoop_iff {t : Table (List β) α} {n : Nat} (hlimit : 0 < limit)
    (hn : (t.scan p).length ≤ n) {v : γ} :
    v ∈ pages (fun limit offset => pageLoop p read limit offset 0 [] (t.rangeFrom p)) limit n ↔
      ∃ e ∈ t.scan p, read e = some v := by
  simp only [pages, List.mem_flatMap, List.mem_range, pageLoop_rangeFrom]
  constructor
  · rintro ⟨i, -, hv⟩
    obtain ⟨e, he, hread⟩ := List.mem_filterMap.mp (List.mem_of_mem_take hv)
    exact ⟨e, List.mem_of_mem_drop he, hread⟩
  · rintro ⟨e, he, hread⟩
    obtain ⟨j, hj, rfl⟩ := List.mem_iff_getElem.mp he
    have hdiv : j / limit * limit + j % limit = j := Nat.div_add_mod' j limit
    have hle : j / limit ≤ j := Nat.div_le_self j limit
    refine ⟨j / limit, by omega, mem_take_filterMap (i := j % limit) ?_ (Nat.mod_lt j hlimit) ?_⟩
    · rw [List.length_drop]
      omega
    · rw [List.getElem_drop]
      simpa only [hdiv] using hread

end PageLoop

end KeyedTable
