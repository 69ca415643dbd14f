import Rhodes.LapBuffer
import Rhodes.LogSink

/-!
The log file as a buffer that is written in laps. As long as no message is written over a
position that a clear has left behind, the file holds the newest lap at every place, and the
sink, also the one of the next process, goes on where the last message ended. As long as moreover
no lap ends in front of bytes of the lap before it, the bytes behind the position and then those
in front of it are the newest messages in order.
-/
namespace Rhodes.LogSink

open Rhodes.Arrays (splice)
open Rhodes.LapBuffer

/-- The messages since the last clear. -/
abbrev History := Laps UInt8

variable {settings : LogSettings} {s : System} {h : History}

def record (settings : LogSettings) (h : History) : Event → History
  | .write strMsg => h.add settings.maxLogFileSize strMsg
  | .clear => empty
  | .restart => h

def history (settings : LogSettings) (events : List Event) : History :=
  events.foldl (record settings) empty

/-- The first message behind a clear is written with the old position, or the process ends
while the position is in a file without a path. -/
def LosesPosition (s : System) : Event → Prop
  | .write _ => s.sink.file = none ∧ s.sink.posFile = .unlinked ∧ 0 ≤ s.sink.nCirclePos
  | .clear => False
  | .restart => s.sink.file ≠ none ∧ s.sink.posFile = .unlinked ∧ 0 ≤ s.sink.nCirclePos ∧
      s.sink.nCirclePos ≠ getFileSize s.disk.log

/-- A message does not fit behind the position, and there are bytes of an older lap behind both
the position and the message. -/
def EndsEarly (settings : LogSettings) (s : System) : Event → Prop
  | .write strMsg =>
      (settings.maxLogFileSize : Int) < getCurPos (openFile s) + strMsg.length ∧
        max (getCurPos (openFile s)) strMsg.length < getFileSize (openFile s).disk.log
  | _ => False

/-- No event of the run loses the position, and none ends a lap early. -/
def Keeps (settings : LogSettings) : System → List Event → Prop
  | _, [] => True
  | s, e :: events => ¬LosesPosition s e ∧ ¬EndsEarly settings s e ∧
      Keeps settings (step settings s e) events

section PositionText

theorem length_positionText {n : Nat} (hn : n < 2 ^ 31) : (positionText n).length = 10 := by
  have hdigits : (Nat.toDigits 10 n).length ≤ 10 := by
    rw [Nat.length_toDigits_le_iff (by decide) (by decide)]
    omega
  simp only [positionText, List.length_append, List.length_replicate]
  omega

theorem convertFromString_positionText (n : Nat) :
    Tokenizer.convertFromString (positionText n) = n := by
  refine Tokenizer.convertFromString_toDigits_append n _ ?_
  intro c hc
  have hblank := List.eq_of_mem_replicate (List.mem_of_head? hc)
  rw [hblank]
  rfl

/-- A position takes the place of a shorter or equally long text. -/
theorem splice_positionText {n : Nat} (hn : n < 2 ^ 31) {old : List Char} (hold : old.length ≤ 10) :
    splice old 0 (positionText n) = positionText n := by
  have hdrop : old.drop (0 + (positionText n).length) = [] := by
    rw [length_positionText hn]
    exact List.drop_eq_nil_of_le (by omega)
  rw [splice, hdrop]
  simp

end PositionText

/-- How the position of the stream is counted: in m_nCirclePos, or in m_nFileLogSize as long
as the log has not gone round. -/
def Counted (sink : Sink) (h : History) : Prop :=
  sink.nCirclePos = h.lap.length ∨
  (sink.nCirclePos = -1 ∧ sink.nFileLogSize = h.lap.length ∧ h.content.length = h.lap.length)

/-- What the position file has for the next process. -/
def Saved (s : System) (h : History) : Prop :=
  (s.sink.posFile = .linked ∧
    (s.sink.nCirclePos < 0 → s.disk.logPos = some []) ∧
    (0 ≤ s.sink.nCirclePos → s.disk.logPos = some (positionText h.lap.length))) ∨
  (s.sink.posFile = .unlinked ∧ s.disk.logPos = none)

/-- The file of the log is open. -/
structure Writing (s : System) (h : History) : Prop where
  log : s.disk.log = some h.content
  file : s.sink.file = some h.lap.length
  counted : Counted s.sink h
  saved : Saved s h

/-- A process that has not written yet. -/
structure Fresh (s : System) (h : History) : Prop where
  log : s.disk.log.getD [] = h.content
  file : s.sink.file = none
  posFile : s.sink.posFile = .closed
  circlePos : s.sink.nCirclePos = -1
  logPos : (s.disk.logPos.getD [] = [] ∧ h.content.length = h.lap.length) ∨
    s.disk.logPos = some (positionText h.lap.length)

/-- A process that has cleared the log after it had written. -/
structure Cleared (s : System) (h : History) : Prop where
  log : s.disk.log = none
  file : s.sink.file = none
  posFile : s.sink.posFile = .unlinked
  circlePos : s.sink.nCirclePos = -1 ∨ 0 ≤ s.sink.nCirclePos
  logPos : s.disk.logPos = none
  history : h = empty

structure Inv (settings : LogSettings) (s : System) (h : History) : Prop where
  bound : h.content.length ≤ settings.maxLogFileSize
  order : h.InOrder
  state : Writing s h ∨ Fresh s h ∨ Cleared s h

theorem Inv.lap_le (hinv : Inv settings s h) : h.lap.length ≤ settings.maxLogFileSize :=
  (h.length_lap_le).trans hinv.bound

theorem openFile_of_writing (hw : Writing s h) : openFile s = s := by
  simp [openFile, hw.file]

theorem openFile_of_fresh (hbound : h.lap.length ≤ settings.maxLogFileSize) (hf : Fresh s h) :
    Writing (openFile s) h := by
  have hle := h.length_lap_le
  rcases hf.logPos with ⟨hempty, hend⟩ | hpos
  · have hopen : openFile s = ⟨⟨some h.content, some []⟩, ⟨some h.content.length, .linked, -1,
        h.content.length⟩⟩ := by
      simp [openFile, loadLogPosition, openPosFile, readPosition, hf.file, hf.posFile, hf.log,
        hempty, hf.circlePos]
    rw [hopen]
    refine ⟨rfl, by rw [hend], Or.inr ⟨rfl, hend, hend⟩, Or.inl ⟨rfl, fun _ => rfl, ?_⟩⟩
    intro hnonneg
    exact absurd hnonneg (by simp)
  · have hlen : (positionText h.lap.length).length ≠ 0 := by
      have h10 := length_positionText (Nat.lt_of_le_of_lt hbound settings.int)
      omega
    have hopen : openFile s = ⟨⟨some h.content, some (positionText h.lap.length)⟩,
        ⟨some h.lap.length, .linked, h.lap.length, h.content.length⟩⟩ := by
      have hrange : ¬((h.lap.length : Int) < 0 ∨ (h.content.length : Int) < h.lap.length) := by
        omega
      simp only [openFile, loadLogPosition, openPosFile, readPosition, hf.file, hf.posFile, hf.log,
        hpos, Option.getD_some, if_neg hlen, convertFromString_positionText, if_neg hrange]
      simp
    rw [hopen]
    refine ⟨rfl, rfl, Or.inl rfl, Or.inl ⟨rfl, ?_, fun _ => rfl⟩⟩
    intro hneg
    exact absurd hneg (by simp)

theorem openFile_of_cleared (hc : Cleared s h) (hneg : s.sink.nCirclePos < 0) :
    Writing (openFile s) h := by
  have hcircle : s.sink.nCirclePos = -1 := by
    rcases hc.circlePos with hminus | hnonneg
    · exact hminus
    · omega
  obtain rfl := hc.history
  have hopen : openFile s = ⟨⟨some [], none⟩, ⟨some 0, .unlinked, -1, 0⟩⟩ := by
    simp [openFile, loadLogPosition, openPosFile, readPosition, hc.file, hc.posFile, hc.log,
      hcircle, hc.logPos]
  rw [hopen]
  exact ⟨rfl, rfl, Or.inr ⟨rfl, rfl, rfl⟩, Or.inr ⟨rfl, rfl⟩⟩

theorem openFile_spec (hinv : Inv settings s h) {strMsg : Message}
    (hkeep : ¬LosesPosition s (.write strMsg)) : Writing (openFile s) h := by
  rcases hinv.state with hw | hf | hc
  · rw [openFile_of_writing hw]
    exact hw
  · exact openFile_of_fresh hinv.lap_le hf
  · refine openFile_of_cleared hc ?_
    by_contra hnonneg
    exact hkeep ⟨hc.file, hc.posFile, by omega⟩

/-- A message that fits goes behind the position, another one to the start of the file. -/
theorem moveToStart_spec (hw : Writing s h) (strMsg : Message) :
    moveToStart settings strMsg.length s
      = if h.lap.length + strMsg.length ≤ settings.maxLogFileSize then s
        else { s with sink.file := some 0, sink.nFileLogSize := 0, sink.nCirclePos := 0 } := by
  have htest : ((0 ≤ s.sink.nCirclePos ∧
      (settings.maxLogFileSize : Int) < s.sink.nCirclePos + strMsg.length) ∨
      (s.sink.nCirclePos < 0 ∧ settings.maxLogFileSize < s.sink.nFileLogSize + strMsg.length)) ↔
      ¬h.lap.length + strMsg.length ≤ settings.maxLogFileSize := by
    rcases hw.counted with hcircle | ⟨hcircle, hsize, -⟩
    · rw [hcircle]
      omega
    · rw [hcircle, hsize]
      omega
  unfold moveToStart
  by_cases hfits : h.lap.length + strMsg.length ≤ settings.maxLogFileSize
  · rw [if_pos hfits, if_neg (fun hround => htest.mp hround hfits)]
  · rw [if_neg hfits, if_pos (htest.mpr hfits)]

/-- The message is behind the position or at the start, and counted; its position is not saved
yet. -/
structure Written (settings : LogSettings) (s₀ s : System) (h : History) : Prop where
  log : s.disk.log = some h.content
  file : s.sink.file = some h.lap.length
  counted : Counted s.sink h
  posFile : s.sink.posFile = s₀.sink.posFile
  logPos : s.disk.logPos = s₀.disk.logPos
  circlePos : s.sink.nCirclePos < 0 → s₀.sink.nCirclePos < 0

theorem written_spec (hw : Writing s h) (strMsg : Message) :
    Written settings s
      (countWritten strMsg.length (writeFile strMsg (moveToStart settings strMsg.length s)))
      (h.add settings.maxLogFileSize strMsg) := by
  have hcontent := h.content_add settings.maxLogFileSize strMsg
  have hlap := h.length_lap_add settings.maxLogFileSize strMsg
  rw [moveToStart_spec hw]
  unfold Laps.place at hcontent hlap
  by_cases hfits : h.lap.length + strMsg.length ≤ settings.maxLogFileSize
  · rw [if_pos hfits] at hcontent hlap ⊢
    rcases hw.counted with hcircle | ⟨hcircle, hsize, hend⟩
    · have hnonneg : 0 ≤ s.sink.nCirclePos := by omega
      simp only [writeFile, hw.file, hw.log, Option.getD_some, countWritten, if_pos hnonneg]
      refine ⟨by rw [hcontent], by rw [hlap], Or.inl ?_, rfl, rfl, ?_⟩
      · simp only [hlap, hcircle]
        omega
      · intro hneg
        simp only at hneg
        omega
    · have hneg : ¬0 ≤ s.sink.nCirclePos := by omega
      simp only [writeFile, hw.file, hw.log, Option.getD_some, countWritten, if_neg hneg]
      refine ⟨by rw [hcontent], by rw [hlap], Or.inr ⟨hcircle, ?_, ?_⟩, rfl, rfl, fun h => h⟩
      · rw [hlap, hsize]
      · rw [hcontent, hlap]
        simp only [splice, List.length_append, List.length_take, List.length_drop]
        omega
  · rw [if_neg hfits] at hcontent hlap ⊢
    simp only [writeFile, hw.log, Option.getD_some, countWritten,
      if_pos (show (0 : Int) ≤ 0 by omega)]
    refine ⟨by rw [hcontent], by rw [hlap], Or.inl ?_, rfl, rfl, ?_⟩
    · simp only [hlap]
      omega
    · intro hneg
      simp only at hneg
      omega

theorem saveLogPosition_spec {s₀ : System} {h₀ : History} (hw : Written settings s₀ s h)
    (hsaved : Saved s₀ h₀) (hbound : h.lap.length ≤ settings.maxLogFileSize)
    (hbound₀ : h₀.lap.length ≤ settings.maxLogFileSize) :
    Writing (saveLogPosition settings s) h := by
  by_cases hneg : s.sink.nCirclePos < 0
  · have hsave : saveLogPosition settings s = s := if_pos hneg
    rw [hsave]
    refine ⟨hw.log, hw.file, hw.counted, ?_⟩
    rcases hsaved with ⟨hlinked, hempty, -⟩ | ⟨hunlinked, hnone⟩
    · exact Or.inl ⟨hw.posFile.trans hlinked,
        fun _ => hw.logPos.trans (hempty (hw.circlePos hneg)), fun hnonneg => by omega⟩
    · exact Or.inr ⟨hw.posFile.trans hunlinked, hw.logPos.trans hnone⟩
  have hcircle : s.sink.nCirclePos = h.lap.length := by
    rcases hw.counted with hcircle | ⟨hminus, -⟩
    · exact hcircle
    · omega
  have hsmall : ¬(settings.maxLogFileSize : Int) < s.sink.nCirclePos := by omega
  have hint := settings.int
  rcases hsaved with ⟨hlinked, hempty, hfull⟩ | ⟨hunlinked, hnone⟩
  · have hold : (s.disk.logPos.getD []).length ≤ 10 := by
      rw [hw.logPos]
      by_cases hneg₀ : s₀.sink.nCirclePos < 0
      · simp [hempty hneg₀]
      · rw [hfull (by omega), Option.getD_some, length_positionText (by omega)]
    have hsave : saveLogPosition settings s
        = { s with disk.logPos := some (positionText h.lap.length) } := by
      have hnat : s.sink.nCirclePos.toNat = h.lap.length := by omega
      simp only [saveLogPosition, if_neg hneg, if_neg hsmall, hw.posFile, hlinked, hnat,
        splice_positionText (show h.lap.length < 2 ^ 31 by omega) hold]
    rw [hsave]
    refine ⟨hw.log, hw.file, hw.counted, Or.inl ⟨hw.posFile.trans hlinked, ?_, fun _ => rfl⟩⟩
    intro hlt
    exact absurd hlt hneg
  · have hsave : saveLogPosition settings s = s := by
      simp only [saveLogPosition, if_neg hneg, if_neg hsmall, hw.posFile, hunlinked]
    rw [hsave]
    exact ⟨hw.log, hw.file, hw.counted,
      Or.inr ⟨hw.posFile.trans hunlinked, hw.logPos.trans hnone⟩⟩

theorem writeLogMessage_spec (hinv : Inv settings s h) {strMsg : Message}
    (hmsg : strMsg.length ≤ settings.maxLogFileSize) (hkeep : ¬LosesPosition s (.write strMsg)) :
    Writing (writeLogMessage settings strMsg s) (h.add settings.maxLogFileSize strMsg) := by
  have hopen := openFile_spec hinv hkeep
  have hplace := h.place_add_le settings.maxLogFileSize strMsg hmsg
  refine saveLogPosition_spec (written_spec hopen strMsg) hopen.saved ?_ hinv.lap_le
  rw [Laps.length_lap_add]
  exact hplace

theorem Writing.getCurPos (hw : Writing s h) : getCurPos s = h.lap.length := by
  rcases hw.counted with hcircle | ⟨hminus, hsize, -⟩
  · rw [LogSink.getCurPos, if_pos (by omega), hcircle]
  · rw [LogSink.getCurPos, if_neg (by omega), hsize]

/-- A message that goes to the start leaves the end of the last lap behind it only. -/
theorem order_write (hinv : Inv settings s h) {strMsg : Message}
    (hkeep : ¬LosesPosition s (.write strMsg)) (hends : ¬EndsEarly settings s (.write strMsg)) :
    (h.add settings.maxLogFileSize strMsg).InOrder := by
  have hopen := openFile_spec hinv hkeep
  refine hinv.order.add _ _ (fun hround => ?_)
  by_contra hlonger
  refine hends ⟨?_, ?_⟩
  · rw [hopen.getCurPos]
    omega
  · rw [hopen.getCurPos, getFileSize, hopen.log, Option.getD_some]
    omega

theorem clear_spec (hinv : Inv settings s h) : Inv settings (clear s) empty := by
  refine ⟨Nat.zero_le _, Laps.inOrder_empty, ?_⟩
  rcases hinv.state with hw | hf | hc
  · have hposFile : s.sink.posFile ≠ .closed := by
      rcases hw.saved with ⟨hlinked, -⟩ | ⟨hunlinked, -⟩
      · simp [hlinked]
      · simp [hunlinked]
    refine Or.inr (Or.inr ⟨rfl, rfl, by simp [clear, hposFile], ?_, rfl, rfl⟩)
    rcases hw.counted with hcircle | ⟨hminus, -⟩
    · right
      simp only [clear, hcircle]
      omega
    · exact Or.inl hminus
  · exact Or.inr (Or.inl ⟨rfl, rfl, by simp [clear, hf.posFile], hf.circlePos, Or.inl ⟨rfl, rfl⟩⟩)
  · exact Or.inr (Or.inr ⟨rfl, rfl, by simp [clear, hc.posFile], hc.circlePos, rfl, rfl⟩)

theorem restart_spec (hinv : Inv settings s h) (hkeep : ¬LosesPosition s .restart) :
    Inv settings (restart s) h := by
  refine ⟨hinv.bound, hinv.order, Or.inr (Or.inl ?_)⟩
  rcases hinv.state with hw | hf | hc
  · refine ⟨by simp [restart, hw.log], rfl, rfl, rfl, ?_⟩
    rcases hw.saved with ⟨-, hempty, hfull⟩ | ⟨hunlinked, hnone⟩
    · rcases hw.counted with hcircle | ⟨hminus, -, hend⟩
      · exact Or.inr (hfull (by omega))
      · left
        have hpos : (restart s).disk.logPos = some [] := hempty (by omega)
        rw [hpos]
        exact ⟨rfl, hend⟩
    · left
      have hpos : (restart s).disk.logPos = none := hnone
      rw [hpos]
      refine ⟨rfl, ?_⟩
      rcases hw.counted with hcircle | ⟨-, -, hend⟩
      · by_contra hdiff
        refine hkeep ⟨by simp [hw.file], hunlinked, by omega, ?_⟩
        rw [hcircle, hw.log, getFileSize, Option.getD_some]
        omega
      · exact hend
  · exact ⟨hf.log, rfl, rfl, rfl, hf.logPos⟩
  · obtain rfl := hc.history
    refine ⟨by simp [restart, hc.log]; rfl, rfl, rfl, rfl, Or.inl ⟨?_, rfl⟩⟩
    have hpos : (restart s).disk.logPos = none := hc.logPos
    rw [hpos]
    rfl

theorem step_spec (hinv : Inv settings s h) {e : Event}
    (hmsg : ∀ strMsg, e = .write strMsg → strMsg.length ≤ settings.maxLogFileSize)
    (hkeep : ¬LosesPosition s e) (hends : ¬EndsEarly settings s e) :
    Inv settings (step settings s e) (record settings h e) := by
  cases e with
  | write strMsg =>
    have hlen := hmsg strMsg rfl
    exact ⟨h.length_content_add_le _ strMsg hinv.bound hlen, order_write hinv hkeep hends,
      Or.inl (writeLogMessage_spec hinv hlen hkeep)⟩
  | clear => exact clear_spec hinv
  | restart => exact restart_spec hinv hkeep

/-- Every message of the run is at most as long as the log may be. -/
def Fit (settings : LogSettings) (events : List Event) : Prop :=
  ∀ strMsg, Event.write strMsg ∈ events → strMsg.length ≤ settings.maxLogFileSize

theorem run_spec {events : List Event} (hinv : Inv settings s h) (hfit : Fit settings events)
    (hkeep : Keeps settings s events) :
    Inv settings (events.foldl (step settings) s) (events.foldl (record settings) h) := by
  induction events generalizing s h with
  | nil => exact hinv
  | cons e events ih =>
    obtain ⟨hfirst, hends, hrest⟩ := hkeep
    have hstep : Inv settings (step settings s e) (record settings h e) :=
      step_spec hinv (fun strMsg heq => hfit strMsg (heq ▸ List.mem_cons_self)) hfirst hends
    exact ih hstep (fun strMsg hmem => hfit strMsg (List.mem_cons_of_mem _ hmem)) hrest

theorem inv_create : Inv settings System.create empty :=
  ⟨Nat.zero_le _, Laps.inOrder_empty, Or.inr (Or.inl ⟨rfl, rfl, rfl, rfl, Or.inl ⟨rfl, rfl⟩⟩)⟩

theorem Keeps.append {events more : List Event} (hkeep : Keeps settings s (events ++ more)) :
    Keeps settings s events ∧ Keeps settings (events.foldl (step settings) s) more := by
  induction events generalizing s with
  | nil => exact ⟨trivial, hkeep⟩
  | cons e events ih =>
    obtain ⟨hfirst, hends, hrest⟩ := hkeep
    obtain ⟨hevents, hmore⟩ := ih hrest
    exact ⟨⟨hfirst, hends, hevents⟩, hmore⟩

/-- What the log is in a state: bounded, the newest lap at every place, the newest messages in
order from the place behind the last one on and then from the start, and at the position behind the
last message once the file is open. -/
structure IsCircular (settings : LogSettings) (s : System) (h : History) : Prop where
  bound : getFileSize s.disk.log ≤ settings.maxLogFileSize
  content : s.disk.log.getD [] = h.content
  order : (s.disk.log.getD []).drop h.lap.length ++ (s.disk.log.getD []).take h.lap.length <:+
    h.stream
  curPos : ∀ pos, s.sink.file = some pos → pos = h.lap.length ∧ getCurPos s = pos

theorem Inv.isCircular (hinv : Inv settings s h) : IsCircular settings s h := by
  have hbound := hinv.bound
  have horder : h.content.drop h.lap.length ++ h.content.take h.lap.length <:+ h.stream := by
    have htake : h.content.take h.lap.length = h.lap := by rw [Laps.content_eq, List.take_left]
    rw [htake]
    exact hinv.order.suffix
  rcases hinv.state with hw | hf | hc
  · refine ⟨by simpa [getFileSize, hw.log] using hbound, by simp [hw.log],
      by rwa [hw.log, Option.getD_some], ?_⟩
    intro pos hpos
    have heq : pos = h.lap.length := Option.some.inj (hpos.symm.trans hw.file)
    exact ⟨heq, hw.getCurPos.trans (congrArg Nat.cast heq.symm)⟩
  · refine ⟨by simpa [getFileSize, hf.log] using hbound, hf.log, by rwa [hf.log], ?_⟩
    intro pos hpos
    rw [hf.file] at hpos
    cases hpos
  · obtain rfl := hc.history
    refine ⟨by simp [getFileSize, hc.log], by simp [hc.log]; rfl, by simp [hc.log], ?_⟩
    intro pos hpos
    rw [hc.file] at hpos
    cases hpos

/-- In every run that keeps the position and ends no lap early, the log is bounded and holds the
newest messages since the last clear in cyclic order, and every message goes behind the one before
it, also behind a restart, or to the start when it does not fit there. -/
theorem circular_log (settings : LogSettings) (events : List Event) (hfit : Fit settings events)
    (hkeep : Keeps settings System.create events) :
    IsCircular settings (run settings events) (history settings events) ∧
    ∀ before strMsg, events = before ++ [.write strMsg] →
      (run settings events).disk.log = some (splice (history settings before).content
        ((history settings before).place settings.maxLogFileSize strMsg) strMsg) ∧
      (run settings events).sink.file = some (history settings events).lap.length ∧
      getCurPos (run settings events) = (history settings events).lap.length ∧
      (history settings events).stream = (history settings before).stream ++ strMsg := by
  have hinv : Inv settings (run settings events) (history settings events) :=
    run_spec inv_create hfit hkeep
  refine ⟨hinv.isCircular, ?_⟩
  intro before strMsg hevents
  subst hevents
  have hbefore : Inv settings (run settings before) (history settings before) :=
    run_spec inv_create (fun m hm => hfit m (List.mem_append_left _ hm)) hkeep.append.1
  have hrun : run settings (before ++ [.write strMsg])
      = writeLogMessage settings strMsg (run settings before) := by
    simp [run, step]
  have hhistory : history settings (before ++ [.write strMsg])
      = (history settings before).add settings.maxLogFileSize strMsg := by
    simp [history, record]
  have hw := writeLogMessage_spec hbefore (hfit strMsg (by simp)) hkeep.append.2.1
  rw [← hhistory, ← hrun] at hw
  refine ⟨?_, hw.file, (hinv.isCircular.curPos _ hw.file).2, ?_⟩
  · rw [hw.log, hhistory, Laps.content_add]
  · rw [hhistory, Laps.stream_add]

section Samples

def tenBytes : LogSettings := ⟨10, by decide, by decide⟩

def sixBytes : Message := [1, 2, 3, 4, 5, 6]

/-- The log goes round, the next process goes on behind the second message, and it goes round
again. -/
def roundAndRestart : List Event :=
  [.write sixBytes, .write sixBytes, .restart, .write [7, 8, 9], .write sixBytes]

theorem circular_log_roundAndRestart :
    IsCircular tenBytes (run tenBytes roundAndRestart) (history tenBytes roundAndRestart) := by
  have hfit : Fit tenBytes roundAndRestart := by
    intro strMsg hmem
    simp only [roundAndRestart, sixBytes, List.mem_cons, Event.write.injEq, List.not_mem_nil,
      or_false, reduceCtorEq, false_or] at hmem
    rcases hmem with rfl | rfl | rfl | rfl <;> decide
  refine (circular_log tenBytes roundAndRestart hfit ?_).1
  refine ⟨?_, ?_, ?_, ?_, ?_, ?_, ?_, ?_, ?_, ?_, trivial⟩ <;>
  · first | unfold LosesPosition | unfold EndsEarly
    decide

/-- The log is cleared after it has gone round: the next message is at the start of the file,
and the position is counted on from the old one. -/
def clearedRun : List Event := [.write sixBytes, .write sixBytes, .clear, .write [7, 8, 9]]

/-- The second lap ends in front of a byte of the first one, which stands behind the second lap
when the third one has begun. -/
def earlyEndRun : List Event :=
  [.write (List.replicate 6 1), .write (List.replicate 4 2), .write (List.replicate 5 3),
    .write (List.replicate 3 4), .write (List.replicate 4 5)]

theorem clear_keeps_old_position :
    (run tenBytes clearedRun).sink.file = some 3 ∧ getCurPos (run tenBytes clearedRun) = 9 ∧
    ¬IsCircular tenBytes (run tenBytes clearedRun) (history tenBytes clearedRun) ∧
    (run tenBytes earlyEndRun).disk.log = some [5, 5, 5, 5, 3, 4, 4, 4, 2, 2] ∧
    ¬IsCircular tenBytes (run tenBytes earlyEndRun) (history tenBytes earlyEndRun) := by
  have hfile : (run tenBytes clearedRun).sink.file = some 3 := by decide
  have hpos : getCurPos (run tenBytes clearedRun) = 9 := by decide
  refine ⟨hfile, hpos, ?_, by decide, ?_⟩
  · intro h
    have hcur := (h.curPos 3 hfile).2
    rw [hpos] at hcur
    exact absurd hcur (by decide)
  · exact fun h => absurd h.order (by decide)

end Samples

end Rhodes.LogSink
