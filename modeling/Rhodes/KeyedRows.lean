import Mathlib.Data.List.Induction

/-!
Rows with a key and a name, and the edits of a batch on them: `put` replaces the
row with the same key or appends a new one, `drop` removes the rows with a name. A
batch puts first and drops then. Nothing here refers to a particular table. The
rows after a batch are described in order by `putAll_eq`, and a batch that was cut
anywhere and is then applied as a whole leaves what it leaves when it is applied
once.
-/
namespace Rhodes.KeyedRows

variable {ρ κ ι : Type*} [DecidableEq κ] [DecidableEq ι] (key : ρ → κ) (name : ρ → ι)

/-- The row at the key of `r` is `r` now, in its old place or at the end. -/
def put (rows : List ρ) (r : ρ) : List ρ :=
  if ∃ s ∈ rows, key s = key r then rows.map (fun s => if key s = key r then r else s)
  else rows ++ [r]

def putAll (rows rs : List ρ) : List ρ := rs.foldl (put key) rows

/-- The last of the rows with the key. -/
def latest (rs : List ρ) (k : κ) : Option ρ := rs.reverse.find? (fun r => key r = k)

/-- What has become of a row after the rows `rs` were put. -/
def current (rs : List ρ) (s : ρ) : ρ := (latest key rs (key s)).getD s

theorem latest_concat (rs : List ρ) (r : ρ) (k : κ) :
    latest key (rs ++ [r]) k = if key r = k then some r else latest key rs k := by
  by_cases hk : key r = k <;> simp [latest, hk]

theorem latest_eq_none {rs : List ρ} {k : κ} :
    latest key rs k = none ↔ ∀ r ∈ rs, key r ≠ k := by
  simp [latest, List.find?_eq_none]

theorem key_of_latest {rs : List ρ} {k : κ} {r : ρ} (h : latest key rs k = some r) :
    key r = k := by
  simpa using List.find?_some h

theorem key_current (rs : List ρ) (s : ρ) : key (current key rs s) = key s := by
  unfold current
  cases hlast : latest key rs (key s) with
  | none => rfl
  | some r => exact key_of_latest key hlast

theorem current_concat (rs : List ρ) (r s : ρ) :
    current key (rs ++ [r]) s = if key s = key r then r else current key rs s := by
  unfold current
  rw [latest_concat]
  by_cases hk : key r = key s
  · simp [hk]
  · simp [hk, Ne.symm hk]

theorem mem_put (rows : List ρ) (r s : ρ) :
    s ∈ put key rows r ↔ s = r ∨ (s ∈ rows ∧ key s ≠ key r) := by
  unfold put
  split
  · rename_i hex
    obtain ⟨s₀, hs₀, hkey⟩ := hex
    simp only [List.mem_map]
    constructor
    · rintro ⟨t, ht, rfl⟩
      by_cases hk : key t = key r
      · exact Or.inl (if_pos hk)
      · rw [if_neg hk]
        exact Or.inr ⟨ht, hk⟩
    · rintro (rfl | ⟨hs, hk⟩)
      · exact ⟨s₀, hs₀, if_pos hkey⟩
      · exact ⟨s, hs, if_neg hk⟩
  · rename_i hnone
    simp only [List.mem_append, List.mem_singleton]
    constructor
    · rintro (hs | rfl)
      · exact Or.inr ⟨hs, fun hk => hnone ⟨s, hs, hk⟩⟩
      · exact Or.inl rfl
    · rintro (rfl | ⟨hs, -⟩)
      · exact Or.inr rfl
      · exact Or.inl hs

theorem putAll_concat (rows rs : List ρ) (r : ρ) :
    putAll key rows (rs ++ [r]) = put key (putAll key rows rs) r := by
  simp [putAll]

theorem putAll_append (rows rs rs' : List ρ) :
    putAll key rows (rs ++ rs') = putAll key (putAll key rows rs) rs' := List.foldl_append

/-- A row is there after the puts when it was the last one put at its key, or when it
was there before and nothing was put at its key. -/
theorem mem_putAll (rows rs : List ρ) (s : ρ) :
    s ∈ putAll key rows rs ↔
      latest key rs (key s) = some s ∨ (latest key rs (key s) = none ∧ s ∈ rows) := by
  induction rs using List.reverseRecOn with
  | nil => simp [putAll, latest]
  | append_singleton rs r ih =>
    rw [putAll_concat, mem_put, ih, latest_concat]
    by_cases hk : key r = key s
    · simp [hk, eq_comm]
    · have hne : s ≠ r := fun h => hk (by rw [h])
      simp [hk, Ne.symm hk, hne]

/-- The rows after the puts in order: the old rows in their places with what has become
of them, and then rows at new keys. -/
theorem putAll_eq (rows rs : List ρ) : ∃ new, putAll key rows rs = rows.map
    (current key rs) ++ new ∧
    ∀ z ∈ new, latest key rs (key z) = some z ∧ ∀ s ∈ rows, key s ≠ key z := by
  induction rs using List.reverseRecOn with
  | nil =>
    have hsame : current key [] = id := rfl
    exact ⟨[], by simp [putAll, hsame], by simp⟩
  | append_singleton rs r ih =>
    obtain ⟨new, heq, hnew⟩ := ih
    rw [putAll_concat, heq]
    unfold put
    split
    · refine ⟨new.map (fun s => if key s = key r then r else s), ?_, ?_⟩
      · rw [List.map_append, List.map_map]
        congr 1
        apply List.map_congr_left
        intro s _
        simp only [Function.comp_apply, key_current, current_concat]
      · intro z hz
        obtain ⟨z₀, hz₀, rfl⟩ := List.mem_map.mp hz
        obtain ⟨hlast, hold⟩ := hnew z₀ hz₀
        by_cases hk : key z₀ = key r
        · rw [if_pos hk]
          exact ⟨by simp [latest_concat], fun s hs => hk ▸ hold s hs⟩
        · rw [if_neg hk, latest_concat, if_neg (Ne.symm hk)]
          exact ⟨hlast, hold⟩
    · rename_i hnone
      have hold : ∀ s ∈ rows, key s ≠ key r := by
        intro s hs hk
        refine hnone ⟨current key rs s, List.mem_append_left _ (List.mem_map_of_mem hs), ?_⟩
        rw [key_current key, hk]
      refine ⟨new ++ [r], ?_, ?_⟩
      · rw [← List.append_assoc]
        congr 2
        apply List.map_congr_left
        intro s hs
        rw [current_concat, if_neg (hold s hs)]
      · intro z hz
        rcases List.mem_append.mp hz with hz | hz
        · have hk : key z ≠ key r := fun hk => hnone ⟨z, List.mem_append_right _ hz, hk⟩
          rw [latest_concat, if_neg (Ne.symm hk)]
          exact hnew z hz
        · rw [List.mem_singleton.mp hz]
          exact ⟨by simp [latest_concat], hold⟩

/-- Nothing has become of a row that is there after the puts. -/
theorem current_of_mem {rows rs : List ρ} {s : ρ} (h : s ∈ putAll key rows rs) :
    current key rs s = s := by
  unfold current
  rcases (mem_putAll key rows rs s).mp h with hlast | ⟨hnone, -⟩
  · rw [hlast, Option.getD_some]
  · rw [hnone, Option.getD_none]

/-- Putting rows into a part of what they left brings back rows outside of that part
only. -/
theorem putAll_filter (rows rs : List ρ) (p : ρ → Bool) :
    ∃ new, putAll key ((putAll key rows rs).filter p) rs = (putAll key rows rs).filter p ++ new ∧
      ∀ z ∈ new, p z = false := by
  obtain ⟨new, heq, hnew⟩ := putAll_eq key ((putAll key rows rs).filter p) rs
  refine ⟨new, ?_, ?_⟩
  · rw [heq]
    congr 1
    conv_rhs => rw [← List.map_id' ((putAll key rows rs).filter p)]
    apply List.map_congr_left
    intro s hs
    exact current_of_mem key (List.mem_filter.mp hs).1
  · intro z hz
    obtain ⟨hlast, hold⟩ := hnew z hz
    by_contra hp
    have hmem : z ∈ putAll key rows rs := (mem_putAll key rows rs z).mpr (Or.inl hlast)
    exact hold z (List.mem_filter.mpr ⟨hmem, by simpa using hp⟩) rfl

theorem putAll_idem (rows rs : List ρ) :
    putAll key (putAll key rows rs) rs = putAll key rows rs := by
  obtain ⟨new, heq, hnew⟩ := putAll_filter key rows rs (fun _ => true)
  have hnil : new = [] := List.eq_nil_iff_forall_not_mem.mpr (fun z hz => by simpa using hnew z hz)
  have hall : (putAll key rows rs).filter (fun _ => true) = putAll key rows rs :=
    List.filter_eq_self.mpr (fun _ _ => rfl)
  rwa [hnil, List.append_nil, hall] at heq

/-- An edit of a batch. -/
inductive Edit (ρ ι : Type*) where
  | put (r : ρ)
  | drop (i : ι)

def Edit.apply (rows : List ρ) : Edit ρ ι → List ρ
  | .put r => KeyedRows.put key rows r
  | .drop i => rows.filter (fun s => name s ≠ i)

def applyAll (rows : List ρ) (edits : List (Edit ρ ι)) : List ρ :=
  edits.foldl (Edit.apply key name) rows

/-- The edits of a batch. -/
def batch (rs : List ρ) (is : List ι) : List (Edit ρ ι) := rs.map .put ++ is.map .drop

theorem applyAll_append (rows : List ρ) (es es' : List (Edit ρ ι)) :
    applyAll key name rows (es ++ es') = applyAll key name (applyAll key name rows es) es' :=
  List.foldl_append

theorem applyAll_concat (rows : List ρ) (es : List (Edit ρ ι)) (e : Edit ρ ι) :
    applyAll key name rows (es ++ [e]) = e.apply key name (applyAll key name rows es) := by
  simp [applyAll]

theorem applyAll_puts (rows rs : List ρ) :
    applyAll key name rows (rs.map Edit.put) = putAll key rows rs := by
  simp only [applyAll, putAll, List.foldl_map]
  rfl

theorem applyAll_drops (rows : List ρ) (is : List ι) :
    applyAll key name rows (is.map Edit.drop) = rows.filter (fun s => name s ∉ is) := by
  induction is generalizing rows with
  | nil => exact (List.filter_eq_self.mpr (fun _ _ => by simp)).symm
  | cons i is ih =>
    have hstep : applyAll key name rows ((i :: is).map Edit.drop) =
        applyAll key name (rows.filter (fun s => name s ≠ i)) (is.map Edit.drop) := rfl
    rw [hstep, ih, List.filter_filter]
    congr 1
    funext s
    by_cases hi : name s = i <;> simp [hi]

/-- A batch in terms of its rows and names. -/
theorem applyAll_batch (rows rs : List ρ) (is : List ι) :
    applyAll key name rows (batch rs is) =
      (putAll key rows rs).filter (fun s => name s ∉ is) := by
  rw [batch, applyAll_append, applyAll_puts, applyAll_drops]

/-- Every row after some edits was there before or was put. -/
theorem mem_applyAll {rows : List ρ} {es : List (Edit ρ ι)} {s : ρ}
    (h : s ∈ applyAll key name rows es) : s ∈ rows ∨ .put s ∈ es := by
  induction es using List.reverseRecOn generalizing s with
  | nil => exact Or.inl h
  | append_singleton es e ih =>
    rw [applyAll_concat] at h
    cases e with
    | put r =>
      rcases (mem_put key _ r s).mp h with rfl | ⟨hs, -⟩
      · exact Or.inr (by simp)
      · exact (ih hs).imp_right (fun hput => List.mem_append_left _ hput)
    | drop i =>
      exact (ih (List.mem_filter.mp h).1).imp_right (fun hput => List.mem_append_left _ hput)

/-- Rows that a batch names neither by key nor by name stay as they are. -/
theorem mem_batch_of_unnamed {rows rs : List ρ} {is : List ι} {s : ρ}
    (hkey : ∀ r ∈ rs, key r ≠ key s) (hname : name s ∉ is) :
    s ∈ applyAll key name rows (batch rs is) ↔ s ∈ rows := by
  have hnone : latest key rs (key s) = none := (latest_eq_none key).mpr hkey
  rw [applyAll_batch, List.mem_filter, mem_putAll, hnone]
  simp [hname]

/-- A batch cut while it puts. -/
theorem batch_after_puts (rows rs : List ρ) (is : List ι) (k : Nat) :
    applyAll key name (putAll key rows (rs.take k)) (batch rs is) =
      applyAll key name rows (batch rs is) := by
  rw [applyAll_batch, applyAll_batch]
  congr 1
  have hcut : rs.take k ++ rs.drop k = rs := List.take_append_drop k rs
  calc putAll key (putAll key rows (rs.take k)) rs
      = putAll key (putAll key (putAll key rows (rs.take k)) (rs.take k)) (rs.drop k) := by
        rw [← putAll_append key _ (rs.take k) (rs.drop k), hcut]
    _ = putAll key (putAll key rows (rs.take k)) (rs.drop k) := by rw [putAll_idem]
    _ = putAll key rows rs := by rw [← putAll_append, hcut]

/-- A batch cut while it drops: what the second round brings back it drops again. -/
theorem batch_after_drops (rows rs : List ρ) (is : List ι) (k : Nat) :
    applyAll key name ((putAll key rows rs).filter (fun s => name s ∉ is.take k)) (batch rs is) =
      applyAll key name rows (batch rs is) := by
  obtain ⟨new, heq, hnew⟩ := putAll_filter key rows rs (fun s => decide (name s ∉ is.take k))
  rw [applyAll_batch, applyAll_batch, heq, List.filter_append, List.filter_filter]
  have hgone : new.filter (fun s => name s ∉ is) = [] := by
    rw [List.filter_eq_nil_iff]
    intro z hz
    have htake : name z ∈ is.take k := by simpa using hnew z hz
    simpa using List.mem_of_mem_take htake
  rw [hgone, List.append_nil]
  congr 1
  funext s
  by_cases hs : name s ∈ is
  · simp [hs]
  · have htake : name s ∉ is.take k := fun h => hs (List.mem_of_mem_take h)
    simp [hs, htake]

/-- A batch that was cut anywhere and is applied again as a whole. -/
theorem batch_after_cut (rows rs : List ρ) (is : List ι) (k : Nat) :
    applyAll key name (applyAll key name rows ((batch rs is).take k)) (batch rs is) =
      applyAll key name rows (batch rs is) := by
  have htake : (batch rs is).take k = batch (rs.take k) (is.take (k - rs.length)) := by
    simp [batch, List.take_append, List.map_take]
  rw [htake]
  by_cases hk : k ≤ rs.length
  · have hzero : k - rs.length = 0 := Nat.sub_eq_zero_of_le hk
    have hputs : applyAll key name rows (batch (rs.take k) []) = putAll key rows (rs.take k) := by
      simp [applyAll_batch]
    rw [hzero, List.take_zero, hputs]
    exact batch_after_puts key name rows rs is k
  · have hall : rs.take k = rs := List.take_of_length_le (by omega)
    rw [hall, applyAll_batch key name rows rs (is.take (k - rs.length))]
    exact batch_after_drops key name rows rs is (k - rs.length)

end Rhodes.KeyedRows
