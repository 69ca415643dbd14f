import Mathlib
import Rhodes.HttpMessage

/-!
A request that comes in chunks, with HTTPParseRequest called after each. The outcome is the one of
a single chunk unless a chunk ends behind byte 2048 of unfinished headers, or the version is read
from what follows the headers.
-/
namespace Rhodes.HttpChunks

open HttpMessage

/-- The chunks are received one after the other; `none` where the request is rejected. -/
def receive (behind : Nat → Text) (dateToEpoch : Text → Int) : List Text → Int × HttpContext →
    Option (Int × HttpContext)
  | [], state => some state
  | chunk :: chunks, (_, c) =>
    let state := HTTPParseRequest behind dateToEpoch { c with rcvdBytes := c.rcvdBytes ++ chunk }
    if state.1 = -1 then none else receive behind dateToEpoch chunks state

/-- The result, and what is left of the request. -/
structure Outcome where
  result : Int
  headersParsed : Bool
  method : Nat
  uri : Text
  headers : Headers
  body : Text
  deriving DecidableEq

def outcomeOf (state : Int × HttpContext) : Outcome where
  result := state.1
  headersParsed := state.2.request.headersParsed
  method := state.2.request.method
  uri := state.2.request.uri
  headers := state.2.request.headers
  body := state.2.rcvdBytes

def outcome (behind : Nat → Text) (dateToEpoch : Text → Int) (chunks : List Text) :
    Option Outcome :=
  (receive behind dateToEpoch chunks (0, {})).map outcomeOf

/-- What the first line has to have for the request to be taken, but for its version. -/
def LineTaken (data : Text) : Prop :=
  16 ≤ httpGetHeadersLen data ∧ (requestMethod data).isSome = true ∧
    uriOf (data.take (httpGetHeadersLen data).toNat) ≠ []

/-- sscanf reads a version of at most 1.1 when so much is received. -/
def VersionOk (behind : Nat → Text) (data : Text) : Prop :=
  ∃ major minor, scanVersion (versionText behind data (httpGetHeadersLen data).toNat) =
    [major, minor] ∧ ¬(major > 1 ∨ (major = 1 ∧ minor > 1))

/-- No chunk ends behind byte 2048 and before the end of the headers. -/
def NoLong (headersLen : Int) : Nat → List Text → Prop
  | _, [] => True
  | received, chunk :: chunks =>
    (((received + chunk.length : Nat) : Int) < headersLen → received + chunk.length ≤ 2048) ∧
      NoLong headersLen (received + chunk.length) chunks

/-- What is received with the chunk that completes the headers. -/
def completing (headersLen : Int) : Text → List Text → Text
  | received, [] => received
  | received, chunk :: chunks =>
    if headersLen ≤ ((received ++ chunk).length : Nat) then received ++ chunk
    else completing headersLen (received ++ chunk) chunks

/-- The chunk boundaries make no difference: a request that is taken has no long part of its
headers received, and the version read with the end of the headers is as good as the one read with
the whole request. -/
structure SplitsWell (behind : Nat → Text) (chunks : List Text) : Prop where
  short : LineTaken chunks.flatten → VersionOk behind chunks.flatten →
    NoLong (httpGetHeadersLen chunks.flatten) 0 chunks
  version : LineTaken chunks.flatten → NoLong (httpGetHeadersLen chunks.flatten) 0 chunks →
    (VersionOk behind (completing (httpGetHeadersLen chunks.flatten) [] chunks) ↔
      VersionOk behind chunks.flatten)

section HeadersLen

/-- What is found in a part is found in the whole. -/
theorem headersLenFrom_append {buf : Text} {pos : Nat} (h : headersLenFrom pos buf ≠ 0)
    (more : Text) : headersLenFrom pos (buf ++ more) = headersLenFrom pos buf := by
  induction buf generalizing pos with
  | nil => exact absurd rfl h
  | cons c buf ih =>
    cases buf with
    | nil => exact absurd rfl h
    | cons d rest =>
      rw [List.cons_append, List.cons_append]
      unfold headersLenFrom at h ⊢
      split
      · rfl
      · rename_i hallowed
        rw [if_neg hallowed] at h
        split
        · rfl
        · rename_i hlines
          rw [if_neg hlines] at h
          by_cases hend : c = '\n' ∧ d = '\r' ∧ rest.head? = some '\n'
          · have hmore : c = '\n' ∧ d = '\r' ∧ (rest ++ more).head? = some '\n' := by
              refine ⟨hend.1, hend.2.1, ?_⟩
              rw [List.head?_append, hend.2.2]
              rfl
            rw [if_pos hend, if_pos hmore]
          · rw [if_neg hend] at h ⊢
            have hrest : ¬(c = '\n' ∧ d = '\r' ∧ (rest ++ more).head? = some '\n') := by
              rintro ⟨hc, hd, hhead⟩
              cases rest with
              | nil => exact h rfl
              | cons e rest => exact hend ⟨hc, hd, hhead⟩
            rw [if_neg hrest]
            exact ih h

/-- The end of the headers is found with its last byte. -/
theorem headersLenFrom_take {buf : Text} {pos len : Nat} (h : headersLenFrom pos buf = len)
    (hlen : 0 < len) : pos + 2 ≤ len ∧ len ≤ pos + buf.length ∧
      headersLenFrom pos (buf.take (len - pos)) = len := by
  induction buf generalizing pos with
  | nil =>
    unfold headersLenFrom at h
    omega
  | cons c buf ih =>
    cases buf with
    | nil =>
      unfold headersLenFrom at h
      omega
    | cons d rest =>
      unfold headersLenFrom at h
      split at h
      · omega
      · rename_i hallowed
        split at h
        · rename_i hlines
          have hpos : len - pos = 2 := by omega
          rw [hpos]
          refine ⟨by omega, by simp only [List.length_cons]; omega, ?_⟩
          show headersLenFrom pos [c, d] = len
          rw [headersLenFrom, if_neg hallowed, if_pos hlines, h]
        · rename_i hlines
          split at h
          · rename_i hend
            obtain ⟨r, rfl⟩ : ∃ r, rest = '\n' :: r := List.head?_eq_some_iff.mp hend.2.2
            have hpos : len - pos = 3 := by omega
            rw [hpos]
            refine ⟨by omega, by simp only [List.length_cons]; omega, ?_⟩
            show headersLenFrom pos [c, d, '\n'] = len
            rw [headersLenFrom, if_neg hallowed, if_neg hlines, if_pos ⟨hend.1, hend.2.1, rfl⟩, h]
          · rename_i hend
            obtain ⟨hlow, hhigh, htake⟩ := ih h
            refine ⟨by omega, by simp only [List.length_cons] at hhigh ⊢; omega, ?_⟩
            obtain ⟨k, hk⟩ : ∃ k, len - pos = k + 3 := ⟨len - pos - 3, by omega⟩
            have hk' : len - (pos + 1) = k + 2 := by omega
            rw [hk'] at htake
            rw [hk]
            show headersLenFrom pos (c :: d :: rest.take (k + 1)) = len
            have hhead : (rest.take (k + 1)).head? = rest.head? := by
              cases rest <;> rfl
            rw [headersLenFrom, hhead, if_neg hallowed, if_neg hlines, if_neg hend]
            exact htake

variable {buf : Text}

/-- The headers are found in a part just where it has all of them. -/
theorem httpGetHeadersLen_part {part more : Text} {len : Nat} (hlen : 0 < len)
    (h : httpGetHeadersLen (part ++ more) = len) :
    httpGetHeadersLen part = if len ≤ part.length then (len : Int) else 0 := by
  unfold httpGetHeadersLen at h ⊢
  obtain ⟨-, hle, htake⟩ := headersLenFrom_take h hlen
  rw [Nat.sub_zero] at htake
  split
  · rename_i hpart
    have hfront : (part ++ more).take len = part.take len :=
      List.take_append_of_le_length hpart
    rw [hfront] at htake
    have hfound := @headersLenFrom_append (part.take len) 0 (by rw [htake]; omega) (part.drop len)
    rw [List.take_append_drop, htake] at hfound
    exact hfound
  · rename_i hpart
    by_contra hne
    have hwhole := headersLenFrom_append hne more
    rw [h] at hwhole
    have hbound := (headersLenFrom_take hwhole.symm hlen).2.1
    omega

theorem httpGetHeadersLen_undecided {part more : Text} (h : httpGetHeadersLen (part ++ more) = 0) :
    httpGetHeadersLen part = 0 := by
  by_contra hne
  exact hne ((headersLenFrom_append hne more).symm.trans h)

theorem headersLenFrom_cases (pos : Nat) (buf : Text) :
    headersLenFrom pos buf = -1 ∨ ∃ len : Nat, headersLenFrom pos buf = len := by
  induction buf generalizing pos with
  | nil => exact Or.inr ⟨0, rfl⟩
  | cons c buf ih =>
    cases buf with
    | nil => exact Or.inr ⟨0, rfl⟩
    | cons d rest =>
      unfold headersLenFrom
      split
      · exact Or.inl rfl
      · split
        · exact Or.inr ⟨pos + 2, rfl⟩
        · split
          · exact Or.inr ⟨pos + 3, rfl⟩
          · exact ih (pos + 1)

end HeadersLen

section Parsing

variable {behind : Nat → Text} {dateToEpoch : Text → Int} {data part : Text} {len : Nat}

theorem isPrefixOf_take {v buf : Text} {n : Nat} (h : v.length ≤ n) :
    v.isPrefixOf (buf.take n) = v.isPrefixOf buf := by
  rw [Bool.eq_iff_iff, List.isPrefixOf_iff_prefix, List.isPrefixOf_iff_prefix,
    List.prefix_take_iff]
  exact and_iff_left h

theorem requestMethod_take (buf : Text) {n : Nat} (h : 16 ≤ n) :
    requestMethod (buf.take n) = requestMethod buf := by
  have hlen : ∀ v ∈ knownHttpMethods, v.toList.length ≤ 16 := by decide
  have hsame : ∀ vs : List String, (∀ v ∈ vs, v.toList.length ≤ 16) →
      vs.findIdx? (fun v => v.toList.isPrefixOf (buf.take n)) =
        vs.findIdx? (fun v => v.toList.isPrefixOf buf) := by
    intro vs hvs
    induction vs with
    | nil => rfl
    | cons v vs ih =>
      rw [List.findIdx?_cons, List.findIdx?_cons,
        isPrefixOf_take ((hvs v List.mem_cons_self).trans h),
        ih (fun v hv => hvs v (List.mem_cons_of_mem _ hv))]
  exact hsame knownHttpMethods hlen

/-- The answer of HTTPParseRequest when the headers are parsed. -/
def answer (c : HttpContext) : Int :=
  if contentLength c.request.headers ≤ c.rcvdBytes.length then 1 else 0

theorem parse_parsed {c : HttpContext} (h : c.request.headersParsed = true) :
    HTTPParseRequest behind dateToEpoch c = (answer c, c) := by
  unfold HTTPParseRequest answer
  simp only [h, if_true, and_self]

theorem parse_undecided (h : httpGetHeadersLen data = 0) :
    HTTPParseRequest behind dateToEpoch { rcvdBytes := data } =
      if data.length > 2048 then HttpContext.sendError { rcvdBytes := data } 400
        "Request is too big" else (0, { rcvdBytes := data }) := by
  have hparse : parseMessage behind dateToEpoch { rcvdBytes := data } =
      if data.length > 2048 then HttpContext.sendError { rcvdBytes := data } 400
        "Request is too big" else (0, { rcvdBytes := data }) := by
    unfold parseMessage
    dsimp only
    rw [if_pos h]
  unfold HTTPParseRequest
  dsimp only
  rw [if_neg Bool.false_ne_true, hparse]
  split <;> rfl

/-- What is left when the whole request is taken. -/
def takenOutcome (dateToEpoch : Text → Int) (data : Text) (len : Nat) : Outcome :=
  let headers := parseHeaders dateToEpoch (headersStart (data.take len)).length
    (headersStart (data.take len)) []
  { result := if contentLength headers ≤ (data.drop len).length then 1 else 0
    headersParsed := true
    method := (requestMethod data).getD 0
    uri := uriOf (data.take len)
    headers := headers
    body := data.drop len }

theorem parse_taken (hlen : httpGetHeadersLen data = len) (hline : LineTaken data)
    (hversion : VersionOk behind data) :
    ∃ c, HTTPParseRequest behind dateToEpoch { rcvdBytes := data } = (answer c, c) ∧
      c.request.headersParsed = true ∧
      outcomeOf (answer c, c) = takenOutcome dateToEpoch data len := by
  obtain ⟨hlong, hmethod, huri⟩ := hline
  obtain ⟨major, minor, hscan, hversion⟩ := hversion
  obtain ⟨method, hmethod⟩ := Option.isSome_iff_exists.mp hmethod
  rw [hlen, Int.toNat_natCast] at hscan huri
  rw [hlen] at hlong
  obtain ⟨c, hc⟩ : ∃ c : HttpContext, c = { rcvdBytes := data.drop len, request := {
      headersParsed := true, majorVersion := major, minorVersion := minor, method := method,
      uri := uriOf (data.take len),
      headers := parseHeaders dateToEpoch (headersStart (data.take len)).length
        (headersStart (data.take len)) [] } } := ⟨_, rfl⟩
  have hparse : parseMessage behind dateToEpoch { rcvdBytes := data } = (1, c) := by
    unfold parseMessage
    dsimp only
    rw [hlen, if_neg (by omega), if_neg (by omega), hmethod, Int.toNat_natCast]
    dsimp only
    rw [hscan]
    dsimp only
    rw [if_neg hversion, if_neg huri, hc]
  have hparsed : c.request.headersParsed = true := by rw [hc]
  refine ⟨c, ?_, hparsed, ?_⟩
  · unfold HTTPParseRequest
    dsimp only
    rw [if_neg Bool.false_ne_true, hparse]
    dsimp only
    rw [if_pos ⟨rfl, hparsed⟩]
    rfl
  · unfold outcomeOf takenOutcome answer
    rw [hmethod, hc]
    rfl

theorem parse_rejected (hne : httpGetHeadersLen data ≠ 0)
    (hnot : ¬(LineTaken data ∧ VersionOk behind data)) :
    (HTTPParseRequest behind dateToEpoch { rcvdBytes := data }).1 = -1 := by
  have herror : ∀ (c : HttpContext) (status : Nat) (reason : String),
      (c.sendError status reason).1 = -1 := fun _ _ _ => rfl
  have hparse : (parseMessage behind dateToEpoch { rcvdBytes := data }).1 = -1 := by
    unfold parseMessage
    dsimp only
    rw [if_neg hne]
    split
    · exact herror _ _ _
    · rename_i hlong
      split
      · exact herror _ _ _
      · rename_i method hmethod
        split
        · rename_i major minor hscan
          split
          · exact herror _ _ _
          · rename_i hversion
            split
            · exact herror _ _ _
            · rename_i huri
              refine absurd ⟨⟨Int.not_lt.mp hlong, ?_, huri⟩, major, minor, hscan, hversion⟩ hnot
              rw [hmethod]
              rfl
        · exact herror _ _ _
  unfold HTTPParseRequest
  dsimp only
  rw [if_neg Bool.false_ne_true]
  have hnot1 : ¬((parseMessage behind dateToEpoch { rcvdBytes := data }).1 = 1 ∧
      (parseMessage behind dateToEpoch { rcvdBytes := data }).2.request.headersParsed = true) := by
    rw [hparse]
    rintro ⟨h, -⟩
    cases h
  rw [if_neg hnot1]
  exact hparse

end Parsing

section Receiving

variable {behind : Nat → Text} {dateToEpoch : Text → Int} {len : Nat}

theorem receive_cons (chunk : Text) (chunks : List Text) (ret : Int) (c : HttpContext) :
    receive behind dateToEpoch (chunk :: chunks) (ret, c) =
      if (HTTPParseRequest behind dateToEpoch { c with rcvdBytes := c.rcvdBytes ++ chunk }).1 = -1
      then none
      else receive behind dateToEpoch chunks
        (HTTPParseRequest behind dateToEpoch { c with rcvdBytes := c.rcvdBytes ++ chunk }) := rfl

theorem answer_ne (c : HttpContext) : answer c ≠ -1 := by
  unfold answer
  split <;> decide

/-- Behind the headers, the chunks are only gathered. -/
theorem receive_parsed (chunks : List Text) {c : HttpContext}
    (h : c.request.headersParsed = true) :
    receive behind dateToEpoch chunks (answer c, c) =
      some (answer { c with rcvdBytes := c.rcvdBytes ++ chunks.flatten },
        { c with rcvdBytes := c.rcvdBytes ++ chunks.flatten }) := by
  induction chunks generalizing c with
  | nil =>
    rw [List.flatten_nil, List.append_nil]
    rfl
  | cons chunk chunks ih =>
    have hnext : { c with rcvdBytes := c.rcvdBytes ++ chunk }.request.headersParsed = true := h
    rw [receive_cons, parse_parsed hnext, if_neg (answer_ne _), ih hnext, List.flatten_cons]
    simp only [List.append_assoc]

/-- Without an end of the headers, only the size counts. -/
theorem receive_undecided (received : Text) (chunks : List Text) (hchunks : chunks ≠ [])
    (ret : Int) (h : httpGetHeadersLen (received ++ chunks.flatten) = 0) :
    (2048 < (received ++ chunks.flatten).length ∧
      receive behind dateToEpoch chunks (ret, { rcvdBytes := received }) = none) ∨
    ((received ++ chunks.flatten).length ≤ 2048 ∧
      receive behind dateToEpoch chunks (ret, { rcvdBytes := received }) =
        some (0, { rcvdBytes := received ++ chunks.flatten })) := by
  induction chunks generalizing received ret with
  | nil => exact absurd rfl hchunks
  | cons chunk chunks ih =>
    rw [List.flatten_cons, ← List.append_assoc] at h ⊢
    have hpart := httpGetHeadersLen_undecided h
    rw [receive_cons]
    dsimp only
    rw [parse_undecided hpart]
    by_cases hlong : (received ++ chunk).length > 2048
    · refine Or.inl ⟨?_, ?_⟩
      · rw [List.length_append]
        omega
      · rw [if_pos hlong]
        rfl
    · rw [if_neg hlong, if_neg (show ¬(0 : Int) = -1 by decide)]
      cases chunks with
      | nil =>
        rw [List.flatten_nil, List.append_nil]
        exact Or.inr ⟨Nat.not_lt.mp hlong, rfl⟩
      | cons next chunks => exact ih (received ++ chunk) (List.cons_ne_nil _ _) 0 h

/-- A control character is never got over. -/
theorem receive_control (received : Text) (chunks : List Text) (hchunks : chunks ≠ [])
    (ret : Int) (h : httpGetHeadersLen (received ++ chunks.flatten) = -1) :
    receive behind dateToEpoch chunks (ret, { rcvdBytes := received }) = none := by
  induction chunks generalizing received ret with
  | nil => exact absurd rfl hchunks
  | cons chunk chunks ih =>
    rw [List.flatten_cons, ← List.append_assoc] at h
    rw [receive_cons]
    dsimp only
    by_cases hpart : httpGetHeadersLen (received ++ chunk) = 0
    · rw [parse_undecided hpart]
      by_cases hlong : (received ++ chunk).length > 2048
      · rw [if_pos hlong]
        rfl
      · rw [if_neg hlong, if_neg (show ¬(0 : Int) = -1 by decide)]
        cases chunks with
        | nil =>
          rw [List.flatten_nil, List.append_nil, hpart] at h
          cases h
        | cons next chunks => exact ih (received ++ chunk) (List.cons_ne_nil _ _) 0 h
    · have hlen : httpGetHeadersLen (received ++ chunk) = -1 :=
        (headersLenFrom_append hpart chunks.flatten).symm.trans h
      have hnot : ¬(LineTaken (received ++ chunk) ∧ VersionOk behind (received ++ chunk)) := by
        rintro ⟨⟨hlong, -⟩, -⟩
        rw [hlen] at hlong
        exact absurd hlong (by decide)
      exact if_pos (parse_rejected hpart hnot)

/-- The first line is the same in a part that has all of the headers. -/
theorem lineTaken_part {part more : Text} (hlen : 0 < len)
    (h : httpGetHeadersLen (part ++ more) = len) (hpart : len ≤ part.length) :
    LineTaken part ↔ LineTaken (part ++ more) := by
  have hfound := httpGetHeadersLen_part hlen h
  rw [if_pos hpart] at hfound
  unfold LineTaken
  rw [h, hfound, Int.toNat_natCast, List.take_append_of_le_length hpart]
  apply and_congr_right
  intro hlong
  have hmethod : requestMethod part = requestMethod (part ++ more) := by
    rw [← requestMethod_take part (n := len) (by omega),
      ← requestMethod_take (part ++ more) (n := len) (by omega),
      List.take_append_of_le_length hpart]
  rw [hmethod]

/-- The request is taken with the chunk that completes the headers, if none was too long. -/
def TakenInTime (behind : Nat → Text) (len : Nat) (received : Text) (chunks : List Text) : Prop :=
  NoLong len received.length chunks ∧ LineTaken (received ++ chunks.flatten) ∧
    VersionOk behind (completing len received chunks)

theorem noLong_of_le {headersLen : Int} {n : Nat} (h : headersLen ≤ n) (chunks : List Text) :
    NoLong headersLen n chunks := by
  induction chunks generalizing n with
  | nil => trivial
  | cons chunk chunks ih => exact ⟨fun hlt => absurd hlt (by omega), ih (by omega)⟩

/-- What comes behind the headers only gets into the body. -/
theorem takenOutcome_more {part more : Text} {c : HttpContext} (hlen : 16 ≤ len)
    (hpart : len ≤ part.length)
    (hc : outcomeOf (answer c, c) = takenOutcome dateToEpoch part len) :
    outcomeOf (answer { c with rcvdBytes := c.rcvdBytes ++ more },
        { c with rcvdBytes := c.rcvdBytes ++ more }) =
      takenOutcome dateToEpoch (part ++ more) len := by
  have hmethod : requestMethod (part ++ more) = requestMethod part := by
    rw [← requestMethod_take part hlen, ← requestMethod_take (part ++ more) hlen,
      List.take_append_of_le_length hpart]
  unfold outcomeOf takenOutcome at hc ⊢
  dsimp only at hc ⊢
  obtain ⟨-, hparsed, hm, huri, hheaders, hbody⟩ := Outcome.mk.inj hc
  unfold answer
  dsimp only
  rw [hmethod, List.take_append_of_le_length hpart, List.drop_append_of_le_length hpart, hparsed,
    hm, huri, hheaders, hbody]

theorem receive_decided (hlen : 0 < len) (received : Text) (chunks : List Text) (ret : Int)
    (hreceived : received.length < len)
    (h : httpGetHeadersLen (received ++ chunks.flatten) = len) :
    (TakenInTime behind len received chunks →
      (receive behind dateToEpoch chunks (ret, { rcvdBytes := received })).map outcomeOf =
        some (takenOutcome dateToEpoch (received ++ chunks.flatten) len)) ∧
    (¬TakenInTime behind len received chunks →
      receive behind dateToEpoch chunks (ret, { rcvdBytes := received }) = none) := by
  induction chunks generalizing received ret with
  | nil =>
    have hle := (headersLenFrom_take h hlen).2.1
    rw [List.flatten_nil, List.append_nil] at hle
    omega
  | cons chunk chunks ih =>
    unfold TakenInTime NoLong completing
    rw [List.flatten_cons, ← List.append_assoc] at h ⊢
    rw [receive_cons, ← List.length_append]
    dsimp only
    have hpart := httpGetHeadersLen_part hlen h
    by_cases hcomplete : len ≤ (received ++ chunk).length
    · rw [if_pos hcomplete] at hpart
      rw [if_pos (Int.ofNat_le.mpr hcomplete), ← lineTaken_part hlen h hcomplete]
      have hshort := noLong_of_le (Int.ofNat_le.mpr hcomplete) chunks
      constructor
      · rintro ⟨-, hline, hversion⟩
        have hlong := hline.1
        rw [hpart] at hlong
        obtain ⟨c, hparse, hparsed, houtcome⟩ := parse_taken hpart hline hversion
        rw [hparse, if_neg (answer_ne c), receive_parsed chunks hparsed]
        exact congrArg some (takenOutcome_more (Int.ofNat_le.mp hlong) hcomplete houtcome)
      · intro hnot
        refine if_pos (parse_rejected ?_ ?_)
        · rw [hpart]
          omega
        · rintro ⟨hline, hversion⟩
          exact hnot ⟨⟨fun hlt => absurd hlt (by omega), hshort⟩, hline, hversion⟩
    · rw [if_neg hcomplete] at hpart
      rw [parse_undecided hpart, if_neg (mt Int.ofNat_le.mp hcomplete)]
      by_cases hlong : (received ++ chunk).length > 2048
      · rw [if_pos hlong]
        refine ⟨?_, fun _ => rfl⟩
        rintro ⟨⟨hshort, -⟩, -⟩
        exact absurd (hshort (by omega)) (by omega)
      · rw [if_neg hlong, if_neg (show ¬(0 : Int) = -1 by decide)]
        obtain ⟨htaken, hnot⟩ := ih (received ++ chunk) 0 (by omega) h
        constructor
        · rintro ⟨⟨-, hshort⟩, hrest⟩
          exact htaken ⟨hshort, hrest⟩
        · intro h
          refine hnot ?_
          rintro ⟨hshort, hrest⟩
          exact h ⟨⟨fun _ => Nat.not_lt.mp hlong, hshort⟩, hrest⟩

end Receiving

section Splitting

variable (behind : Nat → Text) (dateToEpoch : Text → Int) {chunks : List Text} {len : Nat}

/-- A request whose headers do not end has the outcome of one chunk. -/
theorem outcome_undecided (hchunks : chunks ≠ [])
    (h : ∀ len : Nat, 0 < len → httpGetHeadersLen chunks.flatten ≠ len) :
    outcome behind dateToEpoch chunks = outcome behind dateToEpoch [chunks.flatten] := by
  unfold outcome
  have hone : [chunks.flatten].flatten = chunks.flatten := List.flatten_singleton
  have hne : [chunks.flatten] ≠ [] := List.cons_ne_nil _ _
  rcases headersLenFrom_cases 0 chunks.flatten with hcontrol | ⟨len, hlen⟩
  · rw [receive_control [] chunks hchunks 0 hcontrol,
      receive_control [] [chunks.flatten] hne 0 (by rw [hone]; exact hcontrol)]
  · cases len with
    | succ len => exact absurd hlen (h (len + 1) (Nat.succ_pos len))
    | zero =>
      have hsplit := @receive_undecided behind dateToEpoch [] chunks hchunks 0 hlen
      have hwhole := @receive_undecided behind dateToEpoch [] [chunks.flatten] hne 0
        (by rw [hone]; exact hlen)
      rw [hone] at hwhole
      rcases hsplit with ⟨hlong, hsplit⟩ | ⟨hshort, hsplit⟩
      · rcases hwhole with ⟨-, hwhole⟩ | ⟨hshort, -⟩
        · rw [hsplit, hwhole]
        · omega
      · rcases hwhole with ⟨hlong, -⟩ | ⟨-, hwhole⟩
        · omega
        · rw [hsplit, hwhole]

/-- With the end of the headers, the outcomes agree where both are taken or none is. -/
theorem outcome_decided (hlen : 0 < len) (h : httpGetHeadersLen chunks.flatten = len) :
    outcome behind dateToEpoch chunks = outcome behind dateToEpoch [chunks.flatten] ↔
      (TakenInTime behind len [] chunks ↔ TakenInTime behind len [] [chunks.flatten]) := by
  have hone : [chunks.flatten].flatten = chunks.flatten := List.flatten_singleton
  obtain ⟨htaken, hnot⟩ := @receive_decided behind dateToEpoch len hlen [] chunks 0 hlen h
  obtain ⟨htaken', hnot'⟩ := @receive_decided behind dateToEpoch len hlen [] [chunks.flatten] 0
    hlen (by rw [hone]; exact h)
  rw [hone] at htaken'
  unfold outcome
  by_cases hin : TakenInTime behind len [] chunks
  · by_cases hin' : TakenInTime behind len [] [chunks.flatten]
    · rw [htaken hin, htaken' hin']
      exact iff_of_true rfl (iff_of_true hin hin')
    · rw [htaken hin, hnot' hin']
      exact iff_of_false nofun (fun hiff => hin' (hiff.mp hin))
  · by_cases hin' : TakenInTime behind len [] [chunks.flatten]
    · rw [hnot hin, htaken' hin']
      exact iff_of_false nofun (fun hiff => hin (hiff.mpr hin'))
    · rw [hnot hin, hnot' hin']
      exact iff_of_true rfl (iff_of_false hin hin')

theorem takenInTime_whole {data : Text} (h : httpGetHeadersLen data = len) (hlen : 0 < len) :
    TakenInTime behind len [] [data] ↔ LineTaken data ∧ VersionOk behind data := by
  have hle := (headersLenFrom_take h hlen).2.1
  rw [Nat.zero_add] at hle
  unfold TakenInTime completing NoLong
  rw [List.flatten_singleton, List.nil_append, if_pos (Int.ofNat_le.mpr hle)]
  refine and_iff_right ⟨?_, trivial⟩
  intro hlt
  rw [List.length_nil, Nat.zero_add] at hlt
  omega

end Splitting

section Versions

theorem signOf_append {t : Text} (h : t ≠ []) (more : Text) :
    signOf (t ++ more) = ((signOf t).1, (signOf t).2 ++ more) := by
  obtain ⟨c, t, rfl⟩ := List.exists_cons_of_ne_nil h
  rw [List.cons_append]
  by_cases hminus : c = '-'
  · subst hminus
    rfl
  · by_cases hplus : c = '+'
    · subst hplus
      rfl
    · have hplain : ∀ s, signOf (c :: s) = (false, c :: s) := by
        intro s
        unfold signOf
        split
        · rename_i heq
          exact absurd (List.cons.inj heq).1 hminus
        · rename_i heq
          exact absurd (List.cons.inj heq).1 hplus
        · rfl
      rw [hplain, hplain]
      rfl

theorem dropWhile_more {p : Char → Bool} {t : Text} (h : t.dropWhile p ≠ []) (more : Text) :
    (t ++ more).dropWhile p = t.dropWhile p ++ more := by
  rw [List.dropWhile_append, if_neg]
  rw [List.isEmpty_iff]
  exact h

theorem takeWhile_more {p : Char → Bool} {t : Text} (h : t.dropWhile p ≠ []) (more : Text) :
    (t ++ more).takeWhile p = t.takeWhile p := by
  have hsplit : t.takeWhile p ++ t.dropWhile p = t := List.takeWhile_append_dropWhile
  have hmore : (t ++ more).takeWhile p ++ (t ++ more).dropWhile p = t ++ more :=
    List.takeWhile_append_dropWhile
  rw [dropWhile_more h, ← List.append_assoc] at hmore
  exact List.append_cancel_right ((List.append_cancel_right hmore).trans hsplit.symm)

/-- A number that does not end with the text is the same in a longer text. -/
theorem scanUlong_append {t rest : Text} {n : Nat} (h : scanUlong t = some (n, rest))
    (hrest : rest ≠ []) (more : Text) : scanUlong (t ++ more) = some (n, rest ++ more) := by
  unfold scanUlong at h ⊢
  dsimp only at h ⊢
  split at h
  · cases h
  · rename_i hdigits
    obtain ⟨hn, hbehind⟩ := Prod.mk.inj (Option.some.inj h)
    have hspace : t.dropWhile isspace ≠ [] := by
      intro hnil
      rw [hnil] at hdigits
      exact hdigits rfl
    rw [← hbehind] at hrest
    rw [dropWhile_more hspace, signOf_append hspace]
    dsimp only
    rw [takeWhile_more hrest, dropWhile_more hrest, if_neg hdigits, hn, hbehind]

theorem signOf_suffix (t : Text) : (signOf t).2 <:+ t := by
  unfold signOf
  split
  · exact List.suffix_cons _ _
  · exact List.suffix_cons _ _
  · exact List.suffix_rfl

theorem scanUlong_suffix {t rest : Text} {n : Nat} (h : scanUlong t = some (n, rest)) :
    rest <:+ t := by
  unfold scanUlong at h
  dsimp only at h
  split at h
  · cases h
  · rw [← (Prod.mk.inj (Option.some.inj h)).2]
    exact ((List.dropWhile_suffix _).trans (signOf_suffix _)).trans (List.dropWhile_suffix _)

/-- A text that ends with a newline does not end with its number. -/
theorem scanUlong_newline {t rest : Text} {n : Nat} (h : scanUlong t = some (n, rest))
    (ht : t.getLast? = some '\n') : rest ≠ [] := by
  rintro rfl
  unfold scanUlong at h
  dsimp only at h
  split at h
  · cases h
  · rename_i hdigits
    have hall := List.dropWhile_eq_nil_iff.mp (Prod.mk.inj (Option.some.inj h)).2
    have hne : (signOf (t.dropWhile isspace)).2 ≠ [] := by
      intro hnil
      rw [hnil] at hdigits
      exact hdigits rfl
    obtain ⟨front, hfront⟩ := (signOf_suffix _).trans (List.dropWhile_suffix (l := t) isspace)
    rw [← hfront, List.getLast?_append, Option.or_of_isSome (by simpa using hne)] at ht
    exact absurd (hall _ (List.mem_of_getLast? ht)) (by decide)

theorem getLast?_of_suffix {s t : Text} {c : Char} (h : s <:+ t) (hne : s ≠ [])
    (ht : t.getLast? = some c) : s.getLast? = some c := by
  obtain ⟨front, rfl⟩ := h
  rw [List.getLast?_append, Option.or_of_isSome (by simpa using hne)] at ht
  exact ht

theorem scanVersion_eq_pair {t : Text} {major minor : Nat} :
    scanVersion t = [major, minor] ↔ ∃ behindName behindMajor rest,
      t = "HTTP/".toList ++ behindName ∧ scanUlong behindName = some (major, '.' :: behindMajor) ∧
      scanUlong behindMajor = some (minor, rest) := by
  constructor
  · intro h
    unfold scanVersion at h
    split at h
    · rename_i behindName
      split at h
      · cases h
      · rename_i major' behindMajor hmajor
        cases hminor : scanUlong behindMajor with
        | none =>
          rw [hminor] at h
          cases h
        | some p =>
          obtain ⟨minor', rest⟩ := p
          rw [hminor] at h
          cases h
          exact ⟨behindName, behindMajor, rest, rfl, hmajor, hminor⟩
      · cases h
    · cases h
  · rintro ⟨behindName, behindMajor, rest, rfl, hmajor, hminor⟩
    rw [show "HTTP/".toList ++ behindName = 'H' :: 'T' :: 'T' :: 'P' :: '/' :: behindName from rfl,
      scanVersion, hmajor]
    show major :: ((scanUlong behindMajor).map Prod.fst).toList = [major, minor]
    rw [hminor]
    rfl

/-- A version in a text that ends with a newline is the same in a longer text. -/
theorem scanVersion_append {t : Text} {major minor : Nat} (h : scanVersion t = [major, minor])
    (ht : t.getLast? = some '\n') (more : Text) : scanVersion (t ++ more) = [major, minor] := by
  obtain ⟨behindName, behindMajor, rest, rfl, hmajor, hminor⟩ := scanVersion_eq_pair.mp h
  have hne : behindMajor ≠ [] := by
    rintro rfl
    cases hminor
  have hsuffix : behindMajor <:+ "HTTP/".toList ++ behindName :=
    ((List.suffix_cons _ _).trans (scanUlong_suffix hmajor)).trans (List.suffix_append _ _)
  have hrest := scanUlong_newline hminor (getLast?_of_suffix hsuffix hne ht)
  refine scanVersion_eq_pair.mpr ⟨behindName ++ more, behindMajor ++ more, rest ++ more,
    List.append_assoc .., ?_, scanUlong_append hminor hrest more⟩
  exact scanUlong_append hmajor (List.cons_ne_nil _ _) more

/-- The headers end with a newline, and have no character that is not allowed. -/
theorem headersLenFrom_head {buf : Text} {pos len : Nat} (h : headersLenFrom pos buf = len)
    (hlen : 0 < len) : (buf.take (len - pos)).getLast? = some '\n' ∧
      ∀ c ∈ buf.take (len - pos), isAllowed c = true := by
  induction buf generalizing pos with
  | nil =>
    unfold headersLenFrom at h
    omega
  | cons c buf ih =>
    cases buf with
    | nil =>
      unfold headersLenFrom at h
      omega
    | cons d rest =>
      unfold headersLenFrom at h
      split at h
      · omega
      · rename_i hallowed
        split at h
        · rename_i hlines
          obtain ⟨rfl, rfl⟩ := hlines
          have hpos : len - pos = 2 := by omega
          rw [hpos]
          exact ⟨rfl, by simp [isAllowed]⟩
        · split at h
          · rename_i hend
            obtain ⟨rfl, rfl, hhead⟩ := hend
            obtain ⟨r, rfl⟩ := List.head?_eq_some_iff.mp hhead
            have hpos : len - pos = 3 := by omega
            rw [hpos]
            exact ⟨rfl, by simp [isAllowed]⟩
          · obtain ⟨hlast, hall⟩ := ih h
            have hlow := (headersLenFrom_take h hlen).1
            obtain ⟨k, hk⟩ : ∃ k, len - pos = k + 1 := ⟨len - pos - 1, by omega⟩
            have hk' : len - (pos + 1) = k := by omega
            rw [hk'] at hlast hall
            rw [hk, List.take_succ_cons]
            refine ⟨by rw [List.getLast?_cons, hlast]; rfl, ?_⟩
            intro c' hc'
            rcases List.mem_cons.mp hc' with rfl | hmem
            · exact (Bool.not_eq_false _).mp hallowed
            · exact hall c' hmem

theorem versionStart_suffix (head : Text) : versionStart head <:+ head := by
  unfold versionStart uriStart
  exact ((List.dropWhile_suffix _).trans (List.dropWhile_suffix _)).trans
    ((List.dropWhile_suffix _).trans (List.dropWhile_suffix _))

/-- A version in the headers is the one that is read, whatever is behind them. -/
theorem versionOk_of_head {behind : Nat → Text} {data : Text} {len major minor : Nat}
    (h : httpGetHeadersLen data = len) (hlen : 0 < len)
    (hversion : scanVersion (versionStart (data.take len)) = [major, minor]) :
    VersionOk behind data ↔ ¬(major > 1 ∨ (major = 1 ∧ minor > 1)) := by
  obtain ⟨hlast, hall⟩ := headersLenFrom_head h hlen
  rw [Nat.sub_zero] at hlast hall
  have hsuffix := versionStart_suffix (data.take len)
  have hne : versionStart (data.take len) ≠ [] := by
    intro hnil
    rw [hnil] at hversion
    cases hversion
  have htext : ∃ more, versionText behind data len = versionStart (data.take len) ++ more := by
    unfold versionText
    rw [List.append_assoc, List.takeWhile_append_of_pos]
    · exact ⟨_, rfl⟩
    · intro c hc
      have hallowed := hall c (hsuffix.subset hc)
      refine decide_eq_true ?_
      rintro rfl
      exact absurd hallowed (by decide)
  obtain ⟨more, htext⟩ := htext
  have hread : scanVersion (versionText behind data len) = [major, minor] := by
    rw [htext]
    exact scanVersion_append hversion (getLast?_of_suffix hsuffix hne hlast) more
  unfold VersionOk
  rw [h, Int.toNat_natCast, hread]
  constructor
  · rintro ⟨major', minor', heq, hok⟩
    cases heq
    exact hok
  · exact fun hok => ⟨major, minor, rfl, hok⟩

/-- What completes the headers is a part of the request. -/
theorem completing_part {len : Nat} (received : Text) (chunks : List Text)
    (hle : len ≤ (received ++ chunks.flatten).length) :
    ∃ more, received ++ chunks.flatten = completing len received chunks ++ more ∧
      len ≤ (completing len received chunks).length := by
  induction chunks generalizing received with
  | nil =>
    rw [List.flatten_nil, List.append_nil] at hle
    exact ⟨[], rfl, hle⟩
  | cons chunk chunks ih =>
    rw [List.flatten_cons, ← List.append_assoc] at hle ⊢
    unfold completing
    by_cases hcomplete : (len : Int) ≤ ((received ++ chunk).length : Nat)
    · rw [if_pos hcomplete]
      exact ⟨chunks.flatten, rfl, Int.ofNat_le.mp hcomplete⟩
    · rw [if_neg hcomplete]
      exact ih (received ++ chunk) hle

/-- With its version in the headers a request splits well where no chunk ends too late. -/
theorem splitsWell_of_version (behind : Nat → Text) {chunks : List Text} {len major minor : Nat}
    (h : httpGetHeadersLen chunks.flatten = len) (hlen : 0 < len)
    (hversion : scanVersion (versionStart (chunks.flatten.take len)) = [major, minor])
    (hshort : NoLong len 0 chunks) : SplitsWell behind chunks := by
  have hle := (headersLenFrom_take h hlen).2.1
  rw [Nat.zero_add] at hle
  obtain ⟨more, hmore, hcomplete⟩ := completing_part [] chunks hle
  rw [List.nil_append] at hmore
  have hpart : httpGetHeadersLen (completing len [] chunks) = len := by
    rw [hmore] at h
    rw [httpGetHeadersLen_part hlen h, if_pos hcomplete]
  refine ⟨fun _ _ => h ▸ hshort, fun _ _ => ?_⟩
  have hhead : scanVersion (versionStart ((completing len [] chunks).take len)) =
      [major, minor] := by
    rw [hmore, List.take_append_of_le_length hcomplete] at hversion
    exact hversion
  rw [h, versionOk_of_head hpart hlen hhead, versionOk_of_head h hlen hversion]

end Versions

/-- The outcome of a request in chunks is that of a single chunk just where it splits well. -/
theorem outcome_split_iff (behind : Nat → Text) (dateToEpoch : Text → Int) (chunks : List Text) :
    outcome behind dateToEpoch chunks = outcome behind dateToEpoch [chunks.flatten] ↔
      SplitsWell behind chunks := by
  by_cases hend : ∃ len : Nat, 0 < len ∧ httpGetHeadersLen chunks.flatten = len
  · obtain ⟨len, hlen, h⟩ := hend
    rw [outcome_decided behind dateToEpoch hlen h, takenInTime_whole behind h hlen]
    have hsplits : SplitsWell behind chunks ↔
        (LineTaken chunks.flatten → VersionOk behind chunks.flatten → NoLong len 0 chunks) ∧
          (LineTaken chunks.flatten → NoLong len 0 chunks →
            (VersionOk behind (completing len [] chunks) ↔ VersionOk behind chunks.flatten)) := by
      rw [← h]
      exact ⟨fun hs => ⟨hs.short, hs.version⟩, fun hs => ⟨hs.1, hs.2⟩⟩
    rw [hsplits]
    unfold TakenInTime
    rw [List.nil_append, List.length_nil]
    tauto
  · have hline : ¬LineTaken chunks.flatten := by
      intro hline
      obtain ⟨len, hlen⟩ := (headersLenFrom_cases 0 chunks.flatten).resolve_left (by
        intro hcontrol
        have hlong : 16 ≤ headersLenFrom 0 chunks.flatten := hline.1
        rw [hcontrol] at hlong
        exact absurd hlong (by decide))
      have hlong : 16 ≤ headersLenFrom 0 chunks.flatten := hline.1
      rw [hlen] at hlong
      exact hend ⟨len, by omega, hlen⟩
    refine iff_of_true ?_ ⟨fun h => absurd h hline, fun h => absurd h hline⟩
    cases chunks with
    | nil => rfl
    | cons chunk chunks =>
      exact outcome_undecided behind dateToEpoch (List.cons_ne_nil _ _)
        (fun len hlen h => hend ⟨len, hlen, h⟩)

def noBytes : Nat → Text := fun _ => []

/-- The headers of a request with a long Host. -/
def longHost : Text := "GET / HTTP/1.1\r\nHost: ".toList ++ List.replicate 2040 'a'

theorem outcome_depends_on_chunks :
    outcome noBytes (fun _ => 0) [longHost, "\r\n\r\n".toList] ≠
      outcome noBytes (fun _ => 0) [[longHost, "\r\n\r\n".toList].flatten] ∧
    outcome noBytes (fun _ => 0) ["GET /app/index HTTP/1.\n\n".toList, "1".toList] ≠
      outcome noBytes (fun _ => 0)
        [["GET /app/index HTTP/1.\n\n".toList, "1".toList].flatten] := by
  constructor
  · decide +kernel
  · decide +kernel

end Rhodes.HttpChunks
