import InotifyTools.Proofs.Cursors
import InotifyTools.Proofs.Fids

set_option autoImplicit false

/-! # fanotify records

A record of the fanotify stream is a metadata block, followed by an info record with a fid unless the
event is about no file. What the library locates in a record, and the key it looks the fid up by. -/

namespace InotifyTools

/-! ## Records -/

/-- An info record (`struct fanotify_event_info_fid`): a fid, and behind it perhaps a name, which ends
    with a NUL and is padded with more of them. -/
structure FidRecord where
  infoType : UInt8
  pad : UInt8
  fsid : UInt32 × UInt32
  handleType : UInt32
  handle : Bytes
  name : Bytes
  padding : Nat
  typed : infoType = fanEventInfoTypeFid ∨ infoType = fanEventInfoTypeDfid ∨
    infoType = fanEventInfoTypeDfidName
  noNul : 0 ∉ name
  named : name ≠ [] → infoType = fanEventInfoTypeDfidName ∧ 0 < padding
  fits : fidHdr + handle.length + (name.length + padding) < 2 ^ 16

namespace FidRecord

/-- The part before the handle, with `len` for the length of the record. -/
def header (i : FidRecord) (len : Nat) : Bytes :=
  [i.infoType, i.pad] ++ (leBytes 2 len ++ (leBytes 4 i.fsid.1.toNat ++ (leBytes 4 i.fsid.2.toNat ++
    (leBytes 4 i.handle.length ++ leBytes 4 i.handleType.toNat))))

/-- What follows the handle. -/
def tail (i : FidRecord) : Bytes := i.name ++ List.replicate i.padding 0

/-- The length of the record. -/
def length (i : FidRecord) : Nat := fidHdr + i.handle.length + i.tail.length

/-- The length of the record without the name. -/
def bareLength (i : FidRecord) : Nat := fidHdr + i.handle.length

/-- The bytes of the record. -/
def encode (i : FidRecord) : Bytes := i.header i.length ++ (i.handle ++ i.tail)

/-- Whether the name is empty, or stands for the directory itself. -/
def nameless (i : FidRecord) : Bool :=
  i.infoType = fanEventInfoTypeDfidName ∧ i.tail ≠ [] ∧ (i.name = [] ∨ i.name = [0x2e])

/-- The fid events are looked up by: without a name that does not count. -/
def fid (i : FidRecord) : Bytes :=
  if i.nameless then i.header i.bareLength ++ i.handle else i.encode

/-- The lookup key of the record. -/
def key (i : FidRecord) : FidKey := FidKey.new i.fid

/-- The length of the name field of the event. -/
def nameLen (i : FidRecord) : Nat :=
  if i.nameless then 0 else if i.infoType = fanEventInfoTypeDfidName then i.tail.length else 0

/-- The name of the event. -/
def eventName (i : FidRecord) : Bytes := if i.nameless then [] else i.name

/-- What is located in the record when it stands at `off`. -/
def located (i : FidRecord) (off : Nat) : FidInfo where
  fidOff := off
  fidLen := Int32.ofNat i.bareLength
  nameOff := if i.infoType = fanEventInfoTypeDfidName ∧ i.tail ≠ [] then some (off + i.bareLength)
    else none
  nameLen := Int32.ofNat i.nameLen
  newLen := if i.nameless then some (UInt16.ofNat i.bareLength) else none

@[simp] theorem length_header (i : FidRecord) (len : Nat) : (i.header len).length = fidHdr := by
  simp [header, fidHdr]

theorem length_tail (i : FidRecord) : i.tail.length = i.name.length + i.padding := by
  simp [tail]

theorem length_encode (i : FidRecord) : i.encode.length = i.length := by
  simp only [encode, List.length_append, length_header, length]
  omega

theorem length_lt (i : FidRecord) : i.length < 2 ^ 16 := by
  have hfits := i.fits
  rw [← i.length_tail] at hfits
  exact hfits

theorem length_eq (i : FidRecord) : i.length = i.bareLength + i.tail.length := rfl

theorem infoType_header (i : FidRecord) (len : Nat) : Fid.infoType (i.header len) = i.infoType := rfl

theorem hdrLen_header (i : FidRecord) (len : Nat) :
    Fid.hdrLen (i.header len) = UInt16.ofNat (leNat (leBytes 2 len)) := rfl

theorem toNat_hdrLen_header (i : FidRecord) {len : Nat} (hlen : len < 2 ^ 16) :
    (Fid.hdrLen (i.header len)).toNat = len := by
  rw [hdrLen_header, leNat_leBytes_of_lt hlen]
  exact UInt16.toNat_ofNat_of_lt' hlen

theorem toNat_handleBytes_header (i : FidRecord) (len : Nat) :
    (Fid.handleBytes (i.header len)).toNat = i.handle.length := by
  have hlt : i.handle.length < 2 ^ 32 := by
    have hfits := i.fits
    omega
  have hbytes : Fid.handleBytes (i.header len) = UInt32.ofNat (leNat (leBytes 4 i.handle.length)) :=
    rfl
  rw [hbytes, leNat_leBytes_of_lt hlt]
  exact UInt32.toNat_ofNat_of_lt' hlt

/-- Only a record with a name has something behind its handle, but for padding. -/
theorem name_eq_nil (i : FidRecord) (h : i.infoType ≠ fanEventInfoTypeDfidName) : i.name = [] := by
  by_contra hne
  exact h (i.named hne).1

/-- The first two bytes behind the handle tell whether the name counts. -/
theorem nameless_iff (name : Bytes) (padding : Nat) (n1 : UInt8) (hnul : 0 ∉ name) (hpad : name ≠ [] → 0 < padding)
    (ht : name ++ List.replicate padding 0 ≠ [])
    (hn1 : ∀ h : 1 < (name ++ List.replicate padding 0).length,
      n1 = (name ++ List.replicate padding 0)[1]) :
    ((name ++ List.replicate padding 0).getD 0 0 = 0 ∨
      (name ++ List.replicate padding 0).getD 0 0 = 0x2e ∧ n1 = 0) ↔
      name = [] ∨ name = [0x2e] := by
  rcases name with _ | ⟨a, _ | ⟨b, rest⟩⟩
  · cases padding with
    | zero => simp at ht
    | succ n => simp [List.replicate_succ]
  · obtain ⟨n, rfl⟩ := Nat.exists_eq_add_of_le' (hpad (List.cons_ne_nil _ _))
    have hzero : n1 = 0 := by
      rw [hn1 (by simp)]
      simp [List.replicate_succ]
    have ha : a ≠ 0 := fun he => hnul (he ▸ List.mem_singleton_self a)
    simp [hzero, ha]
  · have hb : n1 ≠ 0 := by
      rw [hn1 (by simp)]
      rintro rfl
      exact hnul (by simp)
    have ha : a ≠ 0 := by
      rintro rfl
      exact hnul (by simp)
    simp [hb, ha]

end FidRecord

/-- A record of the stream (`struct fanotify_event_metadata`), perhaps with an info record. Nothing
    looks at the version word (`vers`, `reserved` and `metadata_len`). -/
structure FanRecord where
  version : UInt32
  mask : UInt32
  maskHigh : UInt32
  fd : Int32
  pid : Int32
  info : Option FidRecord

namespace FanRecord

/-- The bytes of the info record. -/
def infoBytes (r : FanRecord) : Bytes := (r.info.map FidRecord.encode).getD []

/-- The bytes of the record. -/
def encode (r : FanRecord) : Bytes :=
  leBytes 4 (metaLen + r.infoBytes.length) ++ (leBytes 4 r.version.toNat ++ (leBytes 4 r.mask.toNat ++
    (leBytes 4 r.maskHigh.toNat ++ (leBytes 4 r.fd.toUInt32.toNat ++
      (leBytes 4 r.pid.toUInt32.toNat ++ r.infoBytes)))))

theorem length_encode (r : FanRecord) : r.encode.length = metaLen + r.infoBytes.length := by
  simp only [encode, List.length_append, length_leBytes]
  show 4 + (4 + (4 + (4 + (4 + (4 + r.infoBytes.length))))) = 24 + r.infoBytes.length
  omega

/-- The bytes of several records. -/
def encodeAll (rs : List FanRecord) : Bytes := rs.flatMap encode

end FanRecord

/-! ## Reading a record back -/

variable {s : EventStream} {f : Nat}

/-- The words of the metadata of a record that stands at `f`, and the info record behind it. -/
theorem metadata_at {r : FanRecord} {rest : Bytes} (hfits : f + (r.encode ++ rest).length ≤ readCap)
    (here : s.evbuf.slice f (r.encode ++ rest).length = r.encode ++ rest) :
    (s.rdU32 f).toNat = metaLen + r.infoBytes.length ∧ s.rdU32 (f + 8) = r.mask ∧
      s.rdU32 (f + 20) = r.pid.toUInt32 ∧
      s.evbuf.slice (f + 24) r.infoBytes.length = r.infoBytes := by
  have hcap := readCap_eq
  have hbuf := evbufSize_eq
  have hlen := r.length_encode
  have hmeta : metaLen = 24 := rfl
  rw [List.length_append] at hfits
  have hr := (Mem.slice_append_eq here).1
  rw [FanRecord.encode] at hr
  obtain ⟨hlength, hr⟩ := Mem.slice_append_eq hr
  obtain ⟨-, hr⟩ := Mem.slice_append_eq hr
  obtain ⟨hmask, hr⟩ := Mem.slice_append_eq hr
  obtain ⟨-, hr⟩ := Mem.slice_append_eq hr
  obtain ⟨-, hr⟩ := Mem.slice_append_eq hr
  obtain ⟨hpid, hinfo⟩ := Mem.slice_append_eq hr
  simp only [length_leBytes] at hlength hmask hpid hinfo
  have hword : (UInt32.ofNat (metaLen + r.infoBytes.length)).toNat = metaLen + r.infoBytes.length :=
    UInt32.toNat_ofNat_of_lt' (by simp only [UInt32.size]; omega)
  refine ⟨?_, ?_, ?_, hinfo⟩
  · rw [EventStream.rdU32_eq (v := UInt32.ofNat (metaLen + r.infoBytes.length)) (by omega)
      (by rw [hword]; exact hlength), hword]
  · exact EventStream.rdU32_eq (by omega) hmask
  · exact EventStream.rdU32_eq (by omega) hpid

/-- The bytes at `off`, one by one. -/
theorem map_get_eq {off n : Nat} (hoff : off + n ≤ evbufSize) :
    (List.range n).map (fun i => s.get (off + i)) = s.evbuf.slice off n := by
  apply List.ext_getElem
  · simp
  · intro i hi _
    have hlt : off + i < evbufSize := by
      rw [List.length_map, List.length_range] at hi
      omega
    rw [List.getElem_map, List.getElem_range, Mem.getElem_slice]
    exact if_pos hlt

/-- The difference of two lengths. -/
theorem ofNat_sub_ofNat {a b : Nat} (h : b ≤ a) : Int32.ofNat a - Int32.ofNat b = Int32.ofNat (a - b) := by
  have hsum : Int32.ofNat a = Int32.ofNat (a - b) + Int32.ofNat b := by
    rw [← Int32.ofNat_add, Nat.sub_add_cancel h]
  rw [hsum, Int32.add_sub_cancel]

theorem ofNat_pos {a : Nat} (h : a < 2 ^ 16) : 0 < Int32.ofNat a ↔ 0 < a := by
  rw [Int32.lt_iff_toInt_lt, Int32.toInt_ofNat_of_lt (by omega)]
  simp

theorem toUInt16_ofNat (n : Nat) : (Int32.ofNat n).toUInt32.toUInt16 = UInt16.ofNat n :=
  UInt32.toUInt16_ofNat' n

/-- The parts of an info record that stands at `off`. -/
theorem info_at {i : FidRecord} {off : Nat} (hoff : off + i.length ≤ readCap)
    (here : s.evbuf.slice off i.encode.length = i.encode) :
    (List.range fidHdr).map (fun k => s.get (off + k)) = i.header i.length ∧
      ∀ k (hk : k < i.tail.length), s.get (off + i.bareLength + k) = i.tail[k] := by
  have hcap := readCap_eq
  have hbuf := evbufSize_eq
  have hlen := i.length_eq
  have hbare : i.bareLength = fidHdr + i.handle.length := rfl
  unfold FidRecord.encode at here
  obtain ⟨hheader, hrest⟩ := Mem.slice_append_eq here
  obtain ⟨-, htail⟩ := Mem.slice_append_eq hrest
  rw [FidRecord.length_header] at hheader htail
  refine ⟨(map_get_eq (by omega)).trans hheader, fun k hk => ?_⟩
  have hk' := Mem.slice_eq_iff.1 htail k hk
  rw [← hk', show off + fidHdr + i.handle.length + k = off + i.bareLength + k by omega]
  exact if_pos (by omega)

/-- What the library locates in a record with a fid. -/
theorem locateFid_eq {r : FanRecord} {i : FidRecord} {rest : Bytes} (hi : r.info = some i)
    (hfits : f + (r.encode ++ rest).length ≤ readCap)
    (here : s.evbuf.slice f (r.encode ++ rest).length = r.encode ++ rest) :
    locateFid s f = some (i.located (f + 24)) := by
  obtain ⟨hlength, -, -, hinfo⟩ := metadata_at hfits here
  have hbytes : r.infoBytes = i.encode := by simp [FanRecord.infoBytes, hi]
  rw [hbytes] at hlength hinfo
  have hroom : f + 24 + i.length ≤ readCap := by
    have hlen := r.length_encode
    have hmeta : metaLen = 24 := rfl
    rw [hbytes, i.length_encode] at hlen
    rw [List.length_append] at hfits
    omega
  obtain ⟨hheader, htail⟩ := info_at hroom hinfo
  have hlen := i.length_lt
  have hparts := i.length_eq
  have hbare : fidHdr + i.handle.length = i.bareLength := rfl
  have hlong : (s.rdU32 f).toNat > metaLen := by
    have hhdr : fidHdr = 20 := rfl
    rw [hlength, i.length_encode]
    omega
  unfold locateFid
  dsimp only
  rw [show metaLen = 24 from rfl, hheader, i.infoType_header, i.toNat_handleBytes_header,
    i.toNat_hdrLen_header hlen, hbare, if_pos ⟨hlong, i.typed⟩]
  unfold FidRecord.located FidRecord.nameLen
  by_cases htype : i.infoType = fanEventInfoTypeDfidName
  · rw [if_pos htype, ofNat_sub_ofNat (by omega), show i.length - i.bareLength = i.tail.length by omega]
    by_cases hempty : i.tail = []
    · have hnamed : i.nameless = false := by simp [FidRecord.nameless, hempty]
      simp [hempty, hnamed]
    · have hpos : 0 < i.tail.length := List.length_pos_of_ne_nil hempty
      have hpos' : Int32.ofNat i.tail.length > 0 := (ofNat_pos (by omega)).2 hpos
      have hne : Int32.ofNat i.tail.length ≠ 0 := by grind
      have hoff : f + 24 + fidHdr + i.handle.length = f + 24 + i.bareLength := by omega
      have hn0 : s.get (f + 24 + i.bareLength) = i.tail.getD 0 0 := by
        rw [List.getD_eq_getElem _ _ hpos]
        exact htail 0 hpos
      have hcounts := FidRecord.nameless_iff i.name i.padding (s.get (f + 24 + i.bareLength + 1))
        i.noNul (fun hn => (i.named hn).2) hempty fun h => htail 1 h
      rw [if_pos hpos', hoff, Option.map_some, Option.map_some, Option.getD_some, Option.getD_some, hn0]
      by_cases hname : i.nameless = true
      · have hshort := hname
        simp only [FidRecord.nameless, decide_eq_true_eq] at hshort
        rw [if_pos ⟨hne, hcounts.2 hshort.2.2⟩]
        rw [if_pos ⟨htype, hempty⟩, if_pos hname, if_pos hname, ofNat_sub_ofNat (by omega),
          show i.length - i.tail.length = i.bareLength by omega, toUInt16_ofNat]
        rfl
      · have hfull : ¬ (i.name = [] ∨ i.name = [0x2e]) := by
          simpa [FidRecord.nameless, htype, hempty] using hname
        rw [if_neg fun hc => hfull (hcounts.1 hc.2), if_pos ⟨htype, hempty⟩, if_neg hname,
          if_neg hname, if_pos htype]
  · have hnamed : i.nameless = false := by simp [FidRecord.nameless, htype]
    simp [htype, hnamed]

/-- A record without a fid has none to locate. -/
theorem locateFid_bare {r : FanRecord} {rest : Bytes} (hi : r.info = none)
    (hfits : f + (r.encode ++ rest).length ≤ readCap)
    (here : s.evbuf.slice f (r.encode ++ rest).length = r.encode ++ rest) :
    locateFid s f = none := by
  obtain ⟨hlength, -⟩ := metadata_at hfits here
  have hinfo : r.infoBytes = [] := by simp [FanRecord.infoBytes, hi]
  unfold locateFid
  dsimp only
  rw [if_neg]
  rintro ⟨hlong, -⟩
  rw [hlength, hinfo] at hlong
  exact absurd hlong (by decide)

/-! ## The fid of a record -/

namespace FidRecord

/-- The length written into a record whose name does not count. -/
def relabel (i : FidRecord) (m : Mem) (off : Nat) : Mem :=
  if i.nameless then m.blit (off + 2) (leBytes 2 i.bareLength) else m

theorem relabel_of_ne (i : FidRecord) (m : Mem) {off k : Nat} (h : k < off + 2 ∨ off + 4 ≤ k) :
    i.relabel m off k = m k := by
  unfold relabel
  split
  · rcases h with h | h
    · exact Mem.blit_of_lt h
    · exact Mem.blit_of_ge (by rw [length_leBytes]; omega)
  · rfl

theorem bareLength_lt (i : FidRecord) : i.bareLength < 2 ^ 16 := by
  have hlen := i.length_lt
  rw [length_eq] at hlen
  omega

theorem length_fid (i : FidRecord) :
    i.fid.length = if i.nameless then i.bareLength else i.length := by
  unfold fid
  split
  · rw [List.length_append, length_header]
    rfl
  · exact i.length_encode

theorem length_fid_le (i : FidRecord) : i.fid.length ≤ i.length := by
  rw [length_fid, length_eq]
  split <;> omega

/-- The fid stands where the record stood, its length adjusted. -/
theorem fid_at {i : FidRecord} {m : Mem} {off : Nat}
    (here : m.slice off i.encode.length = i.encode) :
    (i.relabel m off).slice off i.fid.length = i.fid ∧
      leNat ((i.relabel m off).slice (off + 2) 2) = i.fid.length := by
  have hword : ∀ len, len < 2 ^ 16 → ∀ rest, (i.relabel m off).slice off (i.header len ++ rest).length
      = i.header len ++ rest → leNat ((i.relabel m off).slice (off + 2) 2) = len := by
    intro len hlen rest h
    obtain ⟨hheader, -⟩ := Mem.slice_append_eq h
    obtain ⟨-, hwords⟩ := Mem.slice_append_eq hheader
    obtain ⟨hlenword, -⟩ := Mem.slice_append_eq hwords
    rw [length_leBytes] at hlenword
    rw [show off + 2 = off + [i.infoType, i.pad].length from rfl, hlenword,
      leNat_leBytes_of_lt hlen]
  by_cases hname : i.nameless = true
  · have hfid : i.fid = i.header i.bareLength ++ i.handle := if_pos hname
    have hinside : (i.relabel m off).slice off (i.header i.bareLength ++ (i.handle ++ i.tail)).length
        = i.header i.bareLength ++ (i.handle ++ i.tail) := by
      unfold relabel
      rw [if_pos hname]
      unfold encode header at here
      rw [List.append_assoc, List.append_assoc] at here
      unfold header
      rw [List.append_assoc, List.append_assoc]
      exact Mem.slice_blit_inside here (by rw [length_leBytes, length_leBytes])
    have hbare := hinside
    rw [← List.append_assoc] at hbare
    rw [length_fid, if_pos hname]
    refine ⟨?_, hword _ i.bareLength_lt _ hinside⟩
    rw [hfid, ← (Mem.slice_append_eq hbare).1, List.length_append, length_header]
    rfl
  · have hfid : i.fid = i.encode := if_neg hname
    have hsame : i.relabel m off = m := if_neg hname
    rw [length_fid, if_neg hname]
    have hhere := here
    rw [← hsame] at hhere
    refine ⟨?_, hword _ i.length_lt _ hhere⟩
    rw [hfid, hsame, ← i.length_encode]
    exact here

end FidRecord

end InotifyTools
