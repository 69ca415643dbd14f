import Rhodes.RandomAccessSpecs
import Rhodes.ReadFully

/-!
readFully over the pages of PersistRAFileImpl. What is behind the first page is copied to where it
would lie in a part at the start of the array, so that an array is filled for certain only if
there is nothing behind, or the part is at the start.
-/
namespace Rhodes.PagedReadFully

open Arrays PagedFile FileImpl RandomAccess ReadFully

/-- read(b, off, len) on a handle of PersistRAFileImpl. -/
def persistRead : Read (RAFile × World) := fun b off len (f, w) =>
  match onFile f.name (readMany f.pos b off len) w with
  | .ok r w' => some (r.count, r.buffer, { f with pos := r.pos }, w')
  | .error _ _ => none

def persistView : View (RAFile × World) where
  bytes s := segment (s.2.files s.1.name).pages.byte 0 (s.2.files s.1.name).pages.size
  pos s := s.1.pos

section Calls

variable {f : RAFile} {w : World}

/-- The array has room for the part, and its positions are ints. -/
theorem bounds_ok {b : List UInt8} {off len : Nat} (hfits : off + len ≤ b.length)
    (hb : b.length < 2147483648) (info : FileInfo) :
    checkBounds b off len info = .ok () info :=
  checkBounds_ok (by omega) (by omega) (by omega) (by omega)

theorem persistRead_zero {b : List UInt8} {off : Nat} (hfits : off ≤ b.length)
    (hb : b.length < 2147483648) : persistRead b off (0 : Nat) (f, w) = some (0, b, f, w) := by
  have hread : readMany f.pos b off (0 : Nat) (w.files f.name) =
      .ok ⟨0, b, f.pos⟩ (w.files f.name) := by
    unfold readMany
    rw [bind_ok (bounds_ok (by omega) hb _)]
    rfl
  have hfile := onFile_ok (t := (w.files f.name).pages) hread
  rw [setPages_self] at hfile
  rw [persistRead, hfile]

theorem persistRead_of_readBytes (huse : 0 < (w.files f.name).useCount) {b : List UInt8}
    {off len : Nat} (hfits : off + len ≤ b.length) (hb : b.length < 2147483648) (hlen : 0 < len)
    {r : Reading} {t : PageTable}
    (h : readBytes f.pos b off len (w.files f.name).pages = .ok r t) :
    persistRead b off len (f, w) =
      some (r.count, r.buffer, { f with pos := r.pos }, w.setPages f.name t) := by
  have hfile := onFile_ok (readMany_ok huse (bounds_ok hfits hb _)
    (show (len : Int) ≠ 0 by omega) h)
  rw [persistRead, hfile]

theorem persistRead_error (huse : 0 < (w.files f.name).useCount) {b : List UInt8}
    {off len : Nat} (hfits : off + len ≤ b.length) (hb : b.length < 2147483648) (hlen : 0 < len)
    {e : Exn} {t : PageTable}
    (h : readBytes f.pos b off len (w.files f.name).pages = .error e t) :
    persistRead b off len (f, w) = none := by
  have hread : readMany f.pos b off len (w.files f.name) =
      .error e { w.files f.name with pages := t } := by
    unfold readMany
    rw [bind_ok (bounds_ok hfits hb _), if_neg (by omega), checkUseCount_bind huse, onPages]
    simp only [Int.toNat_natCast, h]
  rw [persistRead, onFile, hread]

theorem persistRead_end (huse : 0 < (w.files f.name).useCount) {b : List UInt8} {off len : Nat}
    (hfits : off + len ≤ b.length) (hb : b.length < 2147483648) (hlen : 0 < len)
    (hend : (w.files f.name).pages.size ≤ f.pos) :
    persistRead b off len (f, w) = some (-1, b, f, w) := by
  rw [persistRead_of_readBytes huse hfits hb hlen (readBytes_end hend b off len), setPages_self]

/-- A first chunk beyond its page is an exception. -/
theorem readBytes_unsafe {t : PageTable} (ht : t.Valid) {pos : Nat} (hpos : pos < t.size)
    (b : List UInt8) (off len : Nat) (hsafe : ¬ChunkSafe pos (min len (t.size - pos))) :
    ∃ t', readBytes pos b off len t = .error .indexOutOfBounds t' := by
  have hsmall := ht.small
  have hlen : (if pos + len > t.size then t.size - pos else len) = min len (t.size - pos) := by
    split <;> omega
  obtain ⟨count, hcount⟩ : ∃ count, count = min len (t.size - pos) := ⟨_, rfl⟩
  rw [← hcount] at hlen hsafe
  have hchunk : pageSize < pos % pageSize + firstChunk pos count := by
    have hcast : (toInt pos).tmod pageSize = -((4096 - pos % 4096 : Nat) : Int) := by
      have hneg : toInt pos = -((4294967296 - pos % 4294967296 : Nat) : Int) := by
        unfold ChunkSafe at hsafe
        unfold toInt
        rw [Int.bmod_def]
        split <;> omega
      have hmod : (4294967296 - pos % 4294967296) % 4096 = 4096 - pos % 4096 := by
        unfold ChunkSafe pageSize at hsafe
        omega
      rw [hneg, Int.neg_tmod]
      show -(((4294967296 - pos % 4294967296 : Nat) : Int).tmod ((4096 : Nat) : Int)) = _
      rw [← Int.ofNat_tmod, hmod]
    unfold firstChunk
    rw [getPageNumber_eq (by omega), getPageNumber_eq (by omega)]
    unfold ChunkSafe at hsafe
    unfold pageSize at *
    rw [if_neg (by omega), hcast]
    omega
  obtain ⟨t', hget, -, -⟩ := getPage_spec ht (ht.page_lt hpos)
  have hlength := (t.bytes (pos / pageSize)).property
  have hcopy : arraycopy (t.bytes (pos / pageSize)).val (pos % pageSize) b off
      (firstChunk pos count) = none := if_neg (by omega)
  refine ⟨t', ?_⟩
  unfold readBytes
  rw [bind_get, if_neg (by omega), hlen, getPageNumber_eq (by omega), bind_ok hget, hcopy]
  rfl

/-- The bytes of the file from the position on. -/
theorem take_drop_bytes {len : Nat} (hin : f.pos + len ≤ (w.files f.name).pages.size) :
    ((persistView.bytes (f, w)).drop (persistView.pos (f, w))).take len =
      segment (w.files f.name).pages.byte f.pos len := by
  have hsplit : segment (w.files f.name).pages.byte 0 (w.files f.name).pages.size =
      segment (w.files f.name).pages.byte 0 f.pos ++
        (segment (w.files f.name).pages.byte f.pos len ++ segment (w.files f.name).pages.byte
          (f.pos + len) ((w.files f.name).pages.size - (f.pos + len))) := by
    rw [segment_append]
    have hwhole := segment_append (w.files f.name).pages.byte 0 f.pos
      (len + ((w.files f.name).pages.size - (f.pos + len)))
    rw [Nat.zero_add] at hwhole
    rw [hwhole]
    congr 1
    omega
  show ((segment (w.files f.name).pages.byte 0 (w.files f.name).pages.size).drop f.pos).take len = _
  rw [hsplit, List.drop_left' (length_segment _ _ _), List.take_left' (length_segment _ _ _)]

theorem length_persistView :
    (persistView.bytes (f, w)).length = (w.files f.name).pages.size := length_segment _ _ _

end Calls

/-- The file is open, and its array of bytes has room for the part. -/
structure Room (f : RAFile) (w : World) (off len size : Nat) : Prop where
  use : 0 < (w.files f.name).useCount
  valid : (w.files f.name).pages.Valid
  fits : off + len ≤ size
  int : size < 2147483648

/-- When readFully over the pages fills each array, or finds the end of the file: there is nothing
to read, or the first chunk is inside its page and what follows it is none, goes to its place, or
is too little. -/
def PagesFill (f : RAFile) (w : World) (off len : Nat) : Prop :=
  len = 0 ∨ (w.files f.name).pages.size ≤ f.pos ∨
    ChunkSafe f.pos (min len ((w.files f.name).pages.size - f.pos)) ∧
      (off = 0 ∨ f.pos % pageSize + len ≤ pageSize ∨
        (w.files f.name).pages.size < f.pos + len)

section Runs

variable {f : RAFile} {w : World} {off len size : Nat}

/-- Nothing is asked for, or nothing is there. -/
theorem readsFully_none (h : Room f w off len size) {b : List UInt8} (hb : b.length = size)
    (hnone : len = 0 ∨ (w.files f.name).pages.size ≤ f.pos) :
    ReadsFully persistRead persistView b off len (f, w) := by
  obtain ⟨huse, -, hfits, hint⟩ := h
  rcases Nat.eq_zero_or_pos len with hzero | hlen
  · subst hzero
    have hread := @persistRead_zero f w b off (by omega) (by omega)
    refine ⟨1, .full b (f, w), readFullyFrom_turn (n := 0) (by omega) (Nat.le_refl 0) hread
      (Nat.le_refl 0) 0, Nat.zero_le _, ?_, rfl⟩
    rw [List.take_zero, List.take_zero]
  · have hend := hnone.resolve_left (by omega)
    have hread := @persistRead_end f w huse b off len (by omega) (by omega) hlen hend
    refine ⟨1, .eof, readFullyFrom_end (n := 0) (by omega) (Nat.zero_le len) hread (by omega) 0, ?_⟩
    show (persistView.bytes (f, w)).length - f.pos < len
    rw [length_persistView]
    omega

/-- The run inside the file, as far as the pages and their copies go. -/
theorem readFully_chunks (h : Room f w off len size) {b : List UInt8} (hb : b.length = size)
    (hlen : 0 < len) (hpos : f.pos < (w.files f.name).pages.size)
    (hsafe : ChunkSafe f.pos (min len ((w.files f.name).pages.size - f.pos))) :
    ∃ n w', n = (if f.pos / pageSize = (f.pos + min len ((w.files f.name).pages.size - f.pos)) /
          pageSize then min len ((w.files f.name).pages.size - f.pos)
        else pageSize - f.pos % pageSize) ∧ n ≤ len ∧
      readFullyFrom persistRead off len 2 0 b (f, w) =
        if f.pos + len ≤ (w.files f.name).pages.size then
          some (.full (splice (splice b off (segment (w.files f.name).pages.byte f.pos n)) n
            (segment (w.files f.name).pages.byte (f.pos + n) (len - n)))
            ({ f with pos := f.pos + len }, w'))
        else some .eof := by
  obtain ⟨huse, hvalid, hfits, hint⟩ := h
  obtain ⟨n, t, hn, hle, hread, hunseen⟩ := readBytes_chunks hvalid hpos b off len (by omega)
    rfl hsafe
  have hcall := persistRead_of_readBytes huse (by omega) (by omega) hlen hread
  dsimp only at hcall
  refine ⟨n, w.setPages f.name t, hn, by omega, ?_⟩
  refine (readFullyFrom_turn (n := 0) (by omega) (Nat.zero_le len) hcall (by omega) 1).trans ?_
  by_cases hin : f.pos + len ≤ (w.files f.name).pages.size
  · have hall : min len ((w.files f.name).pages.size - f.pos) = len := by omega
    rw [if_neg (by omega), if_pos hin, hall]
  · have hsome : min len ((w.files f.name).pages.size - f.pos) =
        (w.files f.name).pages.size - f.pos := by omega
    rw [if_pos (by omega), if_neg hin, hsome, Nat.zero_add]
    have hfile : (w.setPages f.name t).files f.name = { w.files f.name with pages := t } :=
      files_setPages_self w f.name t
    have hfirst : (splice b off (segment (w.files f.name).pages.byte f.pos n)).length = size := by
      rw [length_splice (by rw [length_segment]; omega), hb]
    have hlength : (splice (splice b off (segment (w.files f.name).pages.byte f.pos n)) n
        (segment (w.files f.name).pages.byte (f.pos + n)
          ((w.files f.name).pages.size - f.pos - n))).length = size := by
      rw [length_splice (by rw [length_segment]; omega), hfirst]
    -- The second call finds the end of the file.
    refine readFullyFrom_end (by omega) (by omega) (persistRead_end ?_ ?_ ?_ (by omega) ?_)
      (by omega) 0
    · rw [hfile]
      exact huse
    · omega
    · omega
    · rw [hfile]
      show t.size ≤ f.pos + ((w.files f.name).pages.size - f.pos)
      rw [hunseen.size]
      omega

/-- The array after a read of the bytes that are there. -/
def chunked (b : List UInt8) (off n len : Nat) (f : RAFile) (w : World) : List UInt8 :=
  splice (splice b off (segment (w.files f.name).pages.byte f.pos n)) n
    (segment (w.files f.name).pages.byte (f.pos + n) (len - n))

/-- All the bytes are in their places if none are behind the first page, or the part is the start
of the array. -/
theorem take_drop_chunked {b : List UInt8} {n : Nat} (hfits : off + len ≤ b.length) (hn : n ≤ len)
    (h : off = 0 ∨ n = len) : ((chunked b off n len f w).drop off).take len =
      segment (w.files f.name).pages.byte f.pos len := by
  have hsplice : chunked b off n len f w =
      splice b off (segment (w.files f.name).pages.byte f.pos len) := by
    unfold chunked
    rcases h with rfl | rfl
    · have happend := splice_splice b (s := segment (w.files f.name).pages.byte f.pos n)
        (t := segment (w.files f.name).pages.byte (f.pos + n) (len - n)) 0
        (by rw [length_segment]; omega)
      rwa [length_segment, Nat.zero_add, segment_append, Nat.add_sub_cancel' hn] at happend
    · rw [Nat.sub_self, segment_zero, splice_nil]
  have hpart := @take_drop_splice b (segment (w.files f.name).pages.byte f.pos len) off
    (by rw [length_segment]; exact hfits)
  rw [length_segment] at hpart
  rw [hsplice, hpart]

/-- The last byte of the part is an old one otherwise. -/
theorem getElem?_chunked {b : List UInt8} {n : Nat} (hfits : off + len ≤ b.length)
    (hoff : 0 < off) (hn : n < len) :
    (((chunked b off n len f w).drop off).take len)[len - 1]? = b[off + (len - 1)]? := by
  have hfirst : (splice b off (segment (w.files f.name).pages.byte f.pos n)).length = b.length :=
    length_splice (by rw [length_segment]; omega)
  unfold chunked
  rw [List.getElem?_take_of_lt (by omega), List.getElem?_drop,
    getElem?_splice (by rw [length_segment]; omega), length_segment, if_neg (by omega),
    getElem?_splice (by rw [length_segment]; omega), length_segment, if_neg (by omega)]

/-- The bytes are there: each array is filled just if the places of the bytes agree. -/
theorem readsFully_inside (h : Room f w off len size) (hlen : 0 < len)
    (hin : f.pos + len ≤ (w.files f.name).pages.size) (hsafe : ChunkSafe f.pos len) :
    (∀ b : List UInt8, b.length = size →
      ReadsFully persistRead persistView b off len (f, w)) ↔
      off = 0 ∨ f.pos % pageSize + len ≤ pageSize := by
  have hmin : min len ((w.files f.name).pages.size - f.pos) = len := by omega
  have hfits := h.fits
  have hrun := fun b hb => readFully_chunks h (b := b) hb hlen (by omega) (by rwa [hmin])
  simp only [hmin, if_pos hin] at hrun
  constructor
  · intro hall
    by_contra hshift
    obtain ⟨hoff, hpages⟩ := not_or.mp hshift
    -- An array of bytes that the last byte of the part is not.
    obtain ⟨x, hx⟩ : ∃ x : UInt8, x ≠ (w.files f.name).pages.byte (f.pos + (len - 1)) := by
      by_cases hzero : (w.files f.name).pages.byte (f.pos + (len - 1)) = 0
      · exact ⟨1, by rw [hzero]; decide⟩
      · exact ⟨0, Ne.symm hzero⟩
    have hb : (List.replicate size x).length = size := List.length_replicate
    obtain ⟨n, w', hn, -, hfull⟩ := hrun _ hb
    have hlt : n < len := by
      unfold pageSize at hn hpages
      rw [if_neg (by omega)] at hn
      omega
    obtain ⟨-, hbytes, -⟩ := (readsFully_iff hfull).mp (hall _ hb)
    have hlast := getElem?_chunked (f := f) (w := w) (by rw [hb]; exact hfits) (by omega) hlt
    rw [take_drop_bytes hin] at hbytes
    unfold chunked at hlast
    rw [hbytes, getElem?_segment _ _ (by omega), List.getElem?_replicate,
      if_pos (by omega)] at hlast
    exact hx (Option.some.inj hlast).symm
  · intro hcond b hb
    obtain ⟨n, w', hn, hle, hfull⟩ := hrun b hb
    have hwhole : off = 0 ∨ n = len := by
      rcases hcond with hoff | hpages
      · exact .inl hoff
      · right
        unfold pageSize at hn hpages
        split at hn <;> omega
    refine (readsFully_iff hfull).mpr ⟨?_, ?_, rfl⟩
    · rw [length_persistView]
      show len ≤ _ - f.pos
      omega
    · rw [take_drop_bytes hin]
      exact take_drop_chunked (by omega) hle hwhole

/-- readFully over PersistRAFileImpl, for every array of a length. -/
theorem persist_readsFully_iff (h : Room f w off len size) :
    (∀ b : List UInt8, b.length = size →
      ReadsFully persistRead persistView b off len (f, w)) ↔ PagesFill f w off len := by
  unfold PagesFill
  by_cases hnone : len = 0 ∨ (w.files f.name).pages.size ≤ f.pos
  · exact iff_of_true (fun b hb => readsFully_none h hb hnone) (or_assoc.mp (.inl hnone))
  obtain ⟨hzero, hend⟩ := not_or.mp hnone
  rw [or_iff_right hzero, or_iff_right hend]
  by_cases hsafe : ChunkSafe f.pos (min len ((w.files f.name).pages.size - f.pos))
  · rw [and_iff_right hsafe]
    by_cases hin : f.pos + len ≤ (w.files f.name).pages.size
    · rw [show min len ((w.files f.name).pages.size - f.pos) = len by omega] at hsafe
      rw [readsFully_inside h (by omega) hin hsafe, or_iff_left (Nat.not_lt.mpr hin)]
    · refine iff_of_true (fun b hb => ?_) (.inr (.inr (Nat.lt_of_not_le hin)))
      obtain ⟨n, w', -, -, heof⟩ := readFully_chunks h hb (by omega) (by omega) hsafe
      rw [if_neg hin] at heof
      refine (readsFully_iff heof).mpr ?_
      show (persistView.bytes (f, w)).length - f.pos < len
      rw [length_persistView]
      omega
  · refine iff_of_false (fun hall => ?_) (fun hcond => hsafe hcond.1)
    have hb : (List.replicate size (0 : UInt8)).length = size := List.length_replicate
    obtain ⟨t, hread⟩ := readBytes_unsafe h.valid (by omega) (List.replicate size 0) off len hsafe
    have hcall := persistRead_error (f := f) h.use (by rw [hb]; exact h.fits)
      (by rw [hb]; exact h.int) (by omega) hread
    have hfailed := readFullyFrom_start_failed (by have := h.fits; have := h.int; omega) hcall
    exact (readsFully_iff hfailed).mp (hall _ hb)

end Runs

end Rhodes.PagedReadFully
