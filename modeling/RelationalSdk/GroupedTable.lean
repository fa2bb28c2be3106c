import RelationalSdk.KeyedTable
import RelationalSdk.Runs
import RelationalSdk.Text

/-!
# Groups of records in one table

One table holds the records of several groups. The key of a record is the name of its group, a
separator and a suffix that tells the record within its group, and the names are without the
separator. The suffix may hold it, and one name may be the beginning of another.

`get_writeAll` : after any writes, a record has the value that was last written for it.
`exists_records` : a scan for a group gives each of its records once, in the order of the
suffixes, and no record of another group. `exists_records_pages` : so do the pages of the group.
-/

namespace GroupedTable

open KeyedTable Runs Text

variable {β ρ α γ : Type*} (sep : β) (suffix : ρ → List β)

/-- The key of a record of a group. -/
def groupKey (g : List β) (r : ρ) : List β :=
  g ++ sep :: suffix r

variable {sep suffix}

theorem isPrefix_groupKey (g : List β) (r : ρ) :
    List.IsPrefix (g ++ [sep]) (groupKey sep suffix g r) :=
  ⟨suffix r, by simp [groupKey]⟩

theorem groupKey_injective (hsuffix : Function.Injective suffix) (g : List β) :
    Function.Injective (groupKey sep suffix g) := by
  intro r r' h
  exact hsuffix (List.cons.inj (List.append_cancel_left h)).2

/-- A key tells its group. -/
theorem groupKey_eq_iff (hsuffix : Function.Injective suffix) {g g' : List β} (hg : sep ∉ g)
    (hg' : sep ∉ g') {r r' : ρ} :
    groupKey sep suffix g r = groupKey sep suffix g' r' ↔ (g', r') = (g, r) := by
  constructor
  · intro h
    have hprefix : List.IsPrefix (g ++ [sep]) (groupKey sep suffix g' r') :=
      h ▸ isPrefix_groupKey g r
    obtain rfl := (isPrefix_append_cons_iff_eq hg hg').mp hprefix
    rw [groupKey_injective hsuffix g h]
  · rintro h
    obtain ⟨rfl, rfl⟩ := Prod.mk.inj h
    rfl

variable (sep suffix) [LinearOrder β]

/-- Write a record of a group. -/
def write (t : Table (List β) α) (w : (List β × ρ) × α) : Table (List β) α :=
  t.insert (groupKey sep suffix w.1.1 w.1.2) w.2

/-- The table after some writes. -/
def writeAll (ws : List ((List β × ρ) × α)) : Table (List β) α :=
  exec (write sep suffix) Table.empty ws

/-- What was last written for a record. -/
def lastWritten [DecidableEq ρ] (ws : List ((List β × ρ) × α)) (g : List β) (r : ρ) : Option α :=
  (ws.reverse.find? fun w => w.1 = (g, r)).map Prod.snd

theorem lastWritten_concat [DecidableEq ρ] (ws : List ((List β × ρ) × α))
    (w : (List β × ρ) × α) (g : List β) (r : ρ) :
    lastWritten (ws ++ [w]) g r = if w.1 = (g, r) then some w.2 else lastWritten ws g r := by
  unfold lastWritten
  rw [List.reverse_concat, List.find?_cons]
  by_cases h : w.1 = (g, r) <;> simp [h]

theorem writeAll_concat (ws : List ((List β × ρ) × α)) (w : (List β × ρ) × α) :
    writeAll sep suffix (ws ++ [w]) = write sep suffix (writeAll sep suffix ws) w :=
  exec_concat ..

variable {sep suffix}

theorem groupKey_lt_groupKey_iff {g : List β} {r r' : ρ} :
    groupKey sep suffix g r < groupKey sep suffix g r' ↔ suffix r < suffix r' := by
  rw [groupKey, groupKey, append_lt_append_left_iff, List.cons_lt_cons_iff]
  simp

/-! ## What is in the table -/

section Writes

variable [DecidableEq ρ] {ws : List ((List β × ρ) × α)} {g : List β}

/-- A record has the value that was last written for it. -/
theorem get_writeAll (hsuffix : Function.Injective suffix) (hws : ∀ w ∈ ws, sep ∉ w.1.1)
    (hg : sep ∉ g) (r : ρ) :
    (writeAll sep suffix ws).get (groupKey sep suffix g r) = lastWritten ws g r := by
  induction ws using List.reverseRecOn with
  | nil => rfl
  | append_singleton ws w ih =>
    obtain ⟨hws, hw⟩ := List.forall_mem_append.mp hws
    have hw : sep ∉ w.1.1 := hw w List.mem_cons_self
    rw [writeAll_concat, lastWritten_concat, write, Table.get_insert]
    exact ite_congr (propext (groupKey_eq_iff hsuffix hg hw)) (fun _ => rfl) fun _ => ih hws

omit [DecidableEq ρ] in
/-- Every key of the table is that of a record that was written. -/
theorem exists_of_get_writeAll {k : List β} {v : α}
    (h : (writeAll sep suffix ws).get k = some v) :
    ∃ w ∈ ws, k = groupKey sep suffix w.1.1 w.1.2 := by
  induction ws using List.reverseRecOn with
  | nil => cases h
  | append_singleton ws w ih =>
    rw [writeAll_concat, write, Table.get_insert] at h
    split_ifs at h with hk
    · exact ⟨w, by simp, hk⟩
    · obtain ⟨w', hw', hk'⟩ := ih h
      exact ⟨w', by simp [hw'], hk'⟩

/-- A scan for a group gives each of its records once, in the order of the suffixes. -/
theorem exists_records (hsuffix : Function.Injective suffix) (hws : ∀ w ∈ ws, sep ∉ w.1.1)
    (hg : sep ∉ g) :
    ∃ rs : List (ρ × α), (rs.map Prod.fst).Nodup ∧
      (∀ r v, (r, v) ∈ rs ↔ lastWritten ws g r = some v) ∧
      rs.Pairwise (fun a b => suffix a.1 < suffix b.1) ∧
      (writeAll sep suffix ws).scan (g ++ [sep]) =
        rs.map fun x => (groupKey sep suffix g x.1, x.2) := by
  have hget := get_writeAll hsuffix hws hg
  have hof : ∀ e ∈ (writeAll sep suffix ws).scan (g ++ [sep]),
      ∃ r, groupKey sep suffix g r = e.1 ∧ lastWritten ws g r = some e.2 := by
    rintro ⟨k, v⟩ he
    obtain ⟨hentry, hscan⟩ := (Table.mem_scan _).mp he
    have hk := (Table.get_eq_some_iff _).mpr hentry
    obtain ⟨w, hw, rfl⟩ := exists_of_get_writeAll hk
    obtain rfl := (isPrefix_append_cons_iff_eq hg (hws w hw)).mp hscan
    exact ⟨w.1.2, rfl, (hget w.1.2).symm.trans hk⟩
  have hfor : ∀ r v, lastWritten ws g r = some v →
      (groupKey sep suffix g r, v) ∈ (writeAll sep suffix ws).scan (g ++ [sep]) := by
    intro r v hv
    refine (Table.mem_scan _).mpr ⟨(Table.get_eq_some_iff _).mp ?_, isPrefix_groupKey g r⟩
    rw [hget r, hv]
  obtain ⟨rs, hnodup, hmem, hsorted, hscan⟩ :=
    (writeAll sep suffix ws).exists_scan_eq (groupKey_injective hsuffix g) hof hfor
  exact ⟨rs, hnodup, hmem, hsorted.imp groupKey_lt_groupKey_iff.mp, hscan⟩

theorem mem_of_lastWritten {r : ρ} {v : α} (h : lastWritten ws g r = some v) :
    ((g, r), v) ∈ ws := by
  obtain ⟨w, hw, rfl⟩ := Option.map_eq_some_iff.mp h
  have hkey : w.1 = (g, r) := by simpa using List.find?_some hw
  rw [← hkey]
  exact List.mem_reverse.mp (List.mem_of_find?_eq_some hw)

/-- The pages of a group give each of its records once, in the order of the suffixes, when all
that was written can be read. -/
theorem exists_records_pages (hsuffix : Function.Injective suffix)
    (hws : ∀ w ∈ ws, sep ∉ w.1.1) (hg : sep ∉ g) {read : α → Option γ}
    (hread : ∀ w ∈ ws, (read w.2).isSome) :
    ∃ rs : List (ρ × α), (rs.map Prod.fst).Nodup ∧
      (∀ r v, (r, v) ∈ rs ↔ lastWritten ws g r = some v) ∧
      rs.Pairwise (fun a b => suffix a.1 < suffix b.1) ∧
      ((writeAll sep suffix ws).scan (g ++ [sep])).length = rs.length ∧
      ∀ limit n, 0 < limit → rs.length ≤ n →
        (pages (fun limit offset => pageLoop (g ++ [sep]) (fun e => read e.2) limit offset 0 []
          ((writeAll sep suffix ws).rangeFrom (g ++ [sep]))) limit n).map some =
            rs.map fun x => read x.2 := by
  obtain ⟨rs, hnodup, hmem, hsorted, hscan⟩ := exists_records hsuffix hws hg
  have hlength : ((writeAll sep suffix ws).scan (g ++ [sep])).length = rs.length := by
    rw [hscan, List.length_map]
  refine ⟨rs, hnodup, hmem, hsorted, hlength, fun limit n hlimit hn => ?_⟩
  have hall : ∀ x ∈ rs, (read x.2).isSome :=
    fun x hx => hread _ (mem_of_lastWritten ((hmem x.1 x.2).mp hx))
  obtain ⟨vs, hvs⟩ : ∃ vs : List γ, vs.map some = rs.map fun x => read x.2 :=
    ⟨rs.pmap (fun x hx => (read x.2).get hx) hall, by simp [List.map_pmap]⟩
  have hscanned : ((writeAll sep suffix ws).scan (g ++ [sep])).map (fun e => read e.2) =
      vs.map some := by
    rw [hscan, List.map_map, hvs]
    rfl
  have hvsLength : vs.length = rs.length := by simpa using congrArg List.length hvs
  rw [pages_pageLoop hscanned hlimit (hvsLength.trans_le hn), hvs]

end Writes

end GroupedTable
