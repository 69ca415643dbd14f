import Mathlib
import Rhodes.JsonRoundTrip

/-!
The trees that the parser makes of any text at all. They hold no NUL, their names are distinct,
their numbers fit and they are no deeper than the stack, so that each of them can be printed and
read again.
-/
namespace Rhodes.JsonTokener
open Json

variable {F : Text → Option (String × Int)} {tok t : Tokener} {x j : JsonObject}
  {c : Char}

/-- Every level holds a tree that leaves room for the levels below it. -/
def SoundLevels : List Srec → Prop
  | [] => True
  | level :: below => (Sound level.current ∧ depth level.current + below.length ≤ 32 ∧
      '\x00' ∉ level.objFieldName.toList) ∧ SoundLevels below

def SoundTok (tok : Tokener) : Prop := SoundLevels (tok.top :: tok.below)

/-- The value passed to a level that adds it. -/
def Passed (tok : Tokener) (x : JsonObject) : Prop :=
  adds tok.top.state = true → Sound x ∧ depth x + tok.below.length + 1 ≤ 32

/-- What a turn keeps of the trees. -/
def Turn.KeepsTrees : Turn → Prop
  | .next t _ => SoundTok t
  | .redo t o => SoundTok t ∧ Passed t o
  | .out t _ => SoundTok t

theorem SoundTok.congr (h : SoundTok tok) (hcurrent : t.top.current = tok.top.current)
    (hname : t.top.objFieldName = tok.top.objFieldName) (hbelow : t.below = tok.below) :
    SoundTok t := by
  obtain ⟨htop, hrest⟩ := h
  refine ⟨?_, by rw [hbelow]; exact hrest⟩
  rw [hcurrent, hname, hbelow]
  exact htop

/-- A scalar or an empty tree may take the place of the value of a level. -/
theorem SoundTok.setCurrent (h : SoundTok tok) (hj : Sound j) (hdepth : depth j = 1) :
    SoundTok (tok.setCurrent j) := by
  obtain ⟨⟨-, hroom, hname⟩, hrest⟩ := h
  have hpos := depth_pos tok.top.current
  refine ⟨⟨hj, ?_, hname⟩, hrest⟩
  rw [Tokener.setCurrent_current, hdepth, Tokener.setCurrent_below]
  omega

theorem passed_of_not_adds (h : adds tok.top.state = false) : Passed tok x := by
  intro hadds
  rw [h] at hadds
  cases hadds

theorem not_mem_strdup (pb : Text) : '\x00' ∉ (strdup pb).toList := by
  rw [strdup, String.toList_ofList]
  intro h
  have := List.mem_takeWhile_imp h
  rw [decide_eq_true_eq] at this
  exact this rfl

theorem scanNumber_sound {d : Bool} {buf : Text} (h : scanNumber F d buf = some j) :
    Sound j ∧ depth j = 1 := by
  unfold scanNumber at h
  split at h
  · obtain ⟨p, -, rfl⟩ := Option.map_eq_some_iff.mp h
    exact ⟨by simp [Sound], by simp [depth]⟩
  · obtain ⟨n, hn, rfl⟩ := Option.map_eq_some_iff.mp h
    exact ⟨by rw [Sound]; exact scanLli_bounds hn, by simp [depth]⟩

section Growing

theorem soundItems_append {items : List JsonObject} (h : SoundItems items) (hj : Sound j) :
    SoundItems (items ++ [j]) := by
  induction items with
  | nil => simp [SoundItems, hj]
  | cons i items ih =>
    rw [SoundItems] at h
    rw [List.cons_append, SoundItems]
    exact ⟨h.1, ih h.2⟩

theorem depthItems_append (items : List JsonObject) (j : JsonObject) :
    depthItems (items ++ [j]) = max (depthItems items) (depth j) := by
  induction items with
  | nil => simp [depthItems]
  | cons i items ih => rw [List.cons_append, depthItems, ih, depthItems, max_assoc]

theorem soundFields_iff {fields : List (String × JsonObject)} :
    SoundFields fields ↔ ∀ f ∈ fields, '\x00' ∉ f.1.toList ∧ Sound f.2 := by
  induction fields with
  | nil => simp [SoundFields]
  | cons f fields ih => rw [SoundFields, List.forall_mem_cons, ih, and_assoc]

theorem depthFields_le_iff {fields : List (String × JsonObject)} {n : ℕ} :
    depthFields fields ≤ n ↔ ∀ f ∈ fields, depth f.2 ≤ n := by
  induction fields with
  | nil => simp [depthFields]
  | cons f fields ih => rw [depthFields, List.forall_mem_cons, ← ih, max_le_iff]

/-- A field put behind the others, in the place of one of its name. -/
theorem objectAdd_sound {fields : List (String × JsonObject)} {name : String}
    (hkeys : (fields.map Prod.fst).Nodup) (hfields : SoundFields fields)
    (hname : '\x00' ∉ name.toList) (hj : Sound j) {n : ℕ} (hdepth : depthFields fields ≤ n)
    (hjdepth : depth j ≤ n) : Sound (.object (objectAdd fields name j)) ∧
      depth (.object (objectAdd fields name j)) ≤ 1 + n := by
  rw [soundFields_iff] at hfields
  rw [depthFields_le_iff] at hdepth
  rw [Sound, depth, soundFields_iff, objectAdd]
  have hmem : ∀ f ∈ fields.filter (fun f => f.1 ≠ name) ++ [(name, j)],
      f ∈ fields ∨ f = (name, j) := by
    intro f hf
    rcases List.mem_append.mp hf with hf | hf
    · exact Or.inl (List.mem_filter.mp hf).1
    · exact Or.inr (List.mem_singleton.mp hf)
  refine ⟨⟨?_, fun f hf => ?_⟩, Nat.add_le_add_left (depthFields_le_iff.mpr fun f hf => ?_) 1⟩
  · rw [List.map_append]
    refine List.nodup_append.mpr ⟨?_, List.nodup_singleton _, ?_⟩
    · exact hkeys.sublist (List.filter_sublist.map _)
    · rintro a ha b hb rfl
      obtain ⟨f, hf, rfl⟩ := List.mem_map.mp ha
      have hne := (List.mem_filter.mp hf).2
      rw [decide_eq_true_eq] at hne
      exact hne (List.mem_singleton.mp hb)
  · rcases hmem f hf with hf | rfl
    · exact hfields f hf
    · exact ⟨hname, hj⟩
  · rcases hmem f hf with hf | rfl
    · exact hdepth f hf
    · exact hjdepth

end Growing

theorem enter_trees (h : SoundTok tok) (s : JsonTokenerState) :
    (enter tok x s).KeepsTrees := by
  unfold enter
  split
  · exact h
  · rename_i hdepth
    rw [Tokener.depth, maxDepth] at hdepth
    refine ⟨⟨⟨by simp [Sound], ?_, by simp⟩, h.congr rfl rfl rfl⟩, passed_of_not_adds rfl⟩
    rw [Tokener.push_top, Tokener.push_below, depth, List.length_cons, Tokener.setState_below]
    · omega
    all_goals simp

theorem switch_trees (hlive : Live tok) (h : SoundTok tok) (hobj : Passed tok x) :
    (switch F tok x c).KeepsTrees := by
  have hsame : ∀ t : Tokener, t.top.current = tok.top.current →
      t.top.objFieldName = tok.top.objFieldName → t.below = tok.below → SoundTok t :=
    fun t hcurrent hname hbelow => h.congr hcurrent hname hbelow
  obtain ⟨htop, -⟩ := hlive
  unfold switch
  cases hs : tok.top.state with
  | eatws =>
    dsimp only
    split_ifs
    · exact h
    · exact hsame _ rfl rfl rfl
    · exact ⟨hsame _ rfl rfl rfl, passed_of_not_adds (adds_of_resting htop)⟩
  | start =>
    dsimp only
    split_ifs
    · exact (hsame (tok.after _) rfl rfl rfl).setCurrent (by simp [Sound, SoundFields])
        (by simp [depth, depthFields])
    · exact (hsame (tok.after _) rfl rfl rfl).setCurrent (by simp [Sound, SoundItems])
        (by simp [depth, depthItems])
    · exact ⟨hsame _ rfl rfl rfl, passed_of_not_adds rfl⟩
    · exact hsame _ rfl rfl rfl
    · exact ⟨hsame _ rfl rfl rfl, passed_of_not_adds rfl⟩
    · exact ⟨hsame _ rfl rfl rfl, passed_of_not_adds rfl⟩
    · exact h
  | finish =>
    dsimp only
    split
    · exact h
    · rename_i level below hbelow
      obtain ⟨⟨hsound, hroom, -⟩, hrest⟩ := h
      rw [hbelow] at hroom hrest
      refine ⟨hrest, fun _ => ⟨hsound, ?_⟩⟩
      rw [List.length_cons] at hroom
      exact hroom
  | null =>
    dsimp only
    split_ifs
    · exact ⟨(hsame ((tok.append _).after _) rfl rfl rfl).setCurrent (by simp [Sound])
        (by simp [depth]), passed_of_not_adds rfl⟩
    · exact hsame _ rfl rfl rfl
    · exact hsame _ rfl rfl rfl
  | boolean =>
    dsimp only
    split_ifs
    · exact ⟨(hsame ((tok.append _).after _) rfl rfl rfl).setCurrent (by simp [Sound])
        (by simp [depth]), passed_of_not_adds rfl⟩
    · exact hsame _ rfl rfl rfl
    · exact ⟨(hsame ((tok.append _).after _) rfl rfl rfl).setCurrent (by simp [Sound])
        (by simp [depth]), passed_of_not_adds rfl⟩
    · exact hsame _ rfl rfl rfl
    · exact hsame _ rfl rfl rfl
  | string =>
    dsimp only
    split_ifs
    · refine (hsame (tok.after _) rfl rfl rfl).setCurrent ?_ (by simp [depth])
      rw [Sound]
      exact not_mem_strdup tok.pb
    · exact hsame _ rfl rfl rfl
    · exact hsame _ rfl rfl rfl
  | number =>
    dsimp only
    split_ifs
    · exact hsame _ rfl rfl rfl
    · split
      · rename_i n hscan
        obtain ⟨hsound, hdepth⟩ := scanNumber_sound hscan
        exact ⟨(hsame (tok.after _) rfl rfl rfl).setCurrent hsound hdepth, passed_of_not_adds rfl⟩
      · exact h
  | array =>
    dsimp only
    split_ifs
    · exact hsame _ rfl rfl rfl
    · exact enter_trees h _
  | objectValue => exact enter_trees h _
  | arrayAdd =>
    dsimp only
    obtain ⟨hjsound, hjdepth⟩ := hobj (by rw [hs]; rfl)
    split
    · rename_i items hcurrent
      obtain ⟨⟨hsound, hroom, hname⟩, hrest⟩ := h
      rw [hcurrent, Sound] at hsound
      rw [hcurrent, depth] at hroom
      refine ⟨⟨⟨?_, ?_, hname⟩, hrest⟩, passed_of_not_adds rfl⟩
      · rw [Tokener.setCurrent_current, Sound]
        exact soundItems_append hsound hjsound
      · rw [Tokener.setCurrent_current, depth, depthItems_append, Tokener.setCurrent_below,
          Tokener.after_below]
        omega
    · exact ⟨hsame _ rfl rfl rfl, passed_of_not_adds rfl⟩
  | objectValueAdd =>
    dsimp only
    obtain ⟨hjsound, hjdepth⟩ := hobj (by rw [hs]; rfl)
    obtain ⟨⟨hsound, hroom, hname⟩, hrest⟩ := h
    split
    · rename_i fields hcurrent
      rw [hcurrent, Sound] at hsound
      rw [hcurrent, depth] at hroom
      obtain ⟨hadded, hadddepth⟩ := objectAdd_sound (n := 31 - tok.below.length) hsound.1 hsound.2
        hname hjsound (by omega) (by omega)
      refine ⟨⟨⟨hadded, ?_, by simp⟩, hrest⟩, passed_of_not_adds rfl⟩
      show depth (.object (objectAdd fields tok.top.objFieldName x)) + tok.below.length ≤ 32
      omega
    · exact ⟨⟨⟨hsound, hroom, by simp⟩, hrest⟩, passed_of_not_adds rfl⟩
  | objectField =>
    dsimp only
    obtain ⟨⟨hsound, hroom, hname⟩, hrest⟩ := h
    split_ifs
    · exact ⟨⟨hsound, hroom, not_mem_strdup tok.pb⟩, hrest⟩
    · exact ⟨⟨hsound, hroom, not_mem_strdup tok.pb⟩, hrest⟩
    · exact hsame _ rfl rfl rfl
    · exact hsame _ rfl rfl rfl
  | commentStart | comment | commentEol | commentEnd | stringEscape | escapeUnicode | arraySep
  | objectFieldStart | objectFieldEnd | objectSep =>
    dsimp only
    split_ifs <;> exact hsame _ rfl rfl rfl

theorem scanChar_trees {fuel : ℕ} (hlive : Live tok) (h : SoundTok tok) (hobj : Passed tok x)
    {turn : Turn} (hscan : scanChar F fuel tok x c = some turn) : turn.KeepsTrees := by
  induction fuel generalizing tok x with
  | zero => cases hscan
  | succ fuel ih =>
    have hkeeps := switch_keeps (F := F) (x := x) (c := c) hlive
    have htrees := switch_trees (F := F) (c := c) hlive h hobj
    unfold scanChar at hscan
    generalize switch F tok x c = next at hkeeps htrees hscan
    cases next with
    | next t o =>
      cases hscan
      exact htrees
    | redo t o => exact ih hkeeps.1 htrees.1 htrees.2 hscan
    | out t err =>
      cases hscan
      exact htrees

theorem parseLoop_trees (hready : Ready tok) (h : SoundTok tok) (cs : Text)
    {r : JsonTokenerError × Tokener} (hparse : parseLoop F tok x cs = some r) :
    SoundTok r.2 := by
  induction cs generalizing tok x with
  | nil =>
    cases hparse
    exact h
  | cons c cs ih =>
    rw [parseLoop] at hparse
    rcases scanChar_ends (F := F) (c := c) (x := x) hready.1
      (rank_lt_redoBound tok) with ⟨t, o, hscan, ht⟩ | ⟨t, err, hscan, -⟩
    · have htrees := scanChar_trees hready.1 h (passed_of_not_adds hready.2) hscan
      rw [hscan] at hparse
      dsimp only at hparse
      split at hparse
      · cases hparse
        exact htrees
      · exact ih ht htrees hparse
    · have htrees := scanChar_trees hready.1 h (passed_of_not_adds hready.2) hscan
      rw [hscan] at hparse
      cases hparse
      exact htrees

/-- Of any text, what the parser accepts is a tree that fits on its stack, and that comes back from
its own text when its doubles do. -/
theorem parsed_tree {text : Text} (h : jsonTokenerParse F text = some (.success, j)) :
    Sound j ∧ depth j ≤ 32 ∧ (Doubles F j →
      jsonTokenerParse F (toJsonString j).toList = some (.success, j)) := by
  obtain ⟨r, hr, hj⟩ := Option.map_eq_some_iff.mp h
  have hnew : SoundTok {} := ⟨⟨by simp [Sound], by simp [depth], by simp⟩, trivial⟩
  obtain ⟨⟨hsound, hroom, -⟩, -⟩ := parseLoop_trees ready_new hnew _ hr
  obtain ⟨herr, hcurrent⟩ := Prod.mk.inj hj
  rw [returned, if_pos herr] at hcurrent
  rw [hcurrent] at hsound hroom
  have hdepth : depth j ≤ 32 := by omega
  exact ⟨hsound, hdepth, fun hd => parse_shallow hsound hd hdepth⟩

/-- A name given twice, a trailing comma and a text behind the value. -/
theorem parsed_tree_sample : Sound (.object [("b", .double "1.500000" 1)]) ∧
    jsonTokenerParse scanHalf (toJsonString (.object [("b", .double "1.500000" 1)])).toList =
      some (.success, .object [("b", .double "1.500000" 1)]) := by
  have hparse : jsonTokenerParse scanHalf "\x7b'b': nULL, \"b\": 1.500000, \x7d x".toList =
      some (.success, .object [("b", .double "1.500000" 1)]) := rfl
  have h := parsed_tree hparse
  exact ⟨h.1, h.2.2 (by simp [Doubles, DoublesFields, readsBack_half])⟩

end Rhodes.JsonTokener
