import NetBlast.Intrinsics

/-!
# Byte buffers and packed structs

A payload is a list of octets, and every access to it is checked: `readBytes` and `writeBytes` fail
where the access leaves the buffer. A `Field` is a member of a packed struct by its offset and size;
the member after `f` begins where `f` ends. The lemmas say which octets a write changes and which it
leaves alone.
-/

namespace NetBlast

/-- The octets behind a pointer. -/
abbrev Buffer := List Byte

/-- `KEY_SIZE`, and `VALUE_SIZE` as well. -/
def keySize : Nat := 64

/-- A key or a value of the key-value store. -/
abbrev Block := Fin keySize → Byte

/-- `n` octets from offset `off` on. -/
def readBytes (buf : Buffer) (off n : Nat) : Option (List Byte) :=
  if off + n ≤ buf.length then some ((buf.drop off).take n) else none

/-- A key or a value from offset `off` on. -/
def readBlock (buf : Buffer) (off : Nat) : Option Block :=
  if h : off + keySize ≤ buf.length then some fun i => buf[off + i] else none

/-- The C string at offset `off`, without its terminator. -/
def readString (buf : Buffer) (off : Nat) : Option (List Byte) :=
  let text := (buf.drop off).takeWhile (· ≠ 0)
  if off + text.length < buf.length then some text else none

/-- `memcpy` of `data` to offset `off`. -/
def writeBytes (buf : Buffer) (off : Nat) (data : List Byte) : Option Buffer :=
  if off + data.length ≤ buf.length then
    some (buf.take off ++ data ++ buf.drop (off + data.length))
  else none

/-- The octets of an ASCII string. -/
def ascii (s : String) : List Byte :=
  s.toList.map fun c => BitVec.ofNat 8 c.toNat

/-- A member of a packed struct. -/
structure Field where
  off : Nat
  size : Nat

namespace Field

/-- The offset behind a member. -/
def stop (f : Field) : Nat :=
  f.off + f.size

/-- The member of `size` octets that follows. -/
def next (f : Field) (size : Nat) : Field :=
  { off := f.stop, size }

end Field

/-- A read succeeds with the octets that stand in the buffer. -/
lemma readBytes_eq_some {buf : Buffer} {off n l} :
    readBytes buf off n = some l ↔
      off + n ≤ buf.length ∧ l.length = n ∧ ∀ i < n, l[i]? = buf[off + i]? := by
  unfold readBytes
  split
  · next le =>
    rw [Option.some.injEq]
    constructor
    · rintro rfl
      refine ⟨le, by rw [List.length_take, List.length_drop]; omega, fun i hi => ?_⟩
      rw [List.getElem?_take_of_lt hi, List.getElem?_drop]
    · rintro ⟨_, len, same⟩
      apply List.ext_getElem?
      intro i
      by_cases hi : i < n
      · rw [List.getElem?_take_of_lt hi, List.getElem?_drop, same i hi]
      · rw [List.getElem?_eq_none (by rw [List.length_take]; omega),
          List.getElem?_eq_none (by omega)]
  · next gt => simp [gt]

/-- The front of what is read is read as well. -/
lemma readBytes_take {buf : Buffer} {off n m l} (read : readBytes buf off (n + m) = some l) :
    readBytes buf off n = some (l.take n) := by
  obtain ⟨le, len, same⟩ := readBytes_eq_some.mp read
  refine readBytes_eq_some.mpr ⟨by omega, by rw [List.length_take]; omega, fun i hi => ?_⟩
  rw [List.getElem?_take_of_lt hi, same i (by omega)]

/-- A block is read as it stands in the buffer. -/
lemma readBlock_eq_some {buf : Buffer} {off} {b : Block} :
    readBlock buf off = some b ↔ ∀ i : Fin keySize, buf[off + i]? = some (b i) := by
  unfold readBlock
  split
  · next le =>
    rw [Option.some.injEq, funext_iff]
    constructor
    · intro same i
      rw [List.getElem?_eq_getElem (by have := i.isLt; omega), same i]
    · intro same i
      have := same i
      rw [List.getElem?_eq_getElem (by have := i.isLt; omega)] at this
      exact Option.some.inj this
  · next gt =>
    constructor
    · exact nofun
    · intro same
      have last := same ⟨keySize - 1, by decide⟩
      rw [List.getElem?_eq_none] at last
      · cases last
      · have : keySize = 64 := rfl
        simp only
        omega

/-- A block that is read lies inside the buffer. -/
lemma readBlock_le {buf : Buffer} {off} {b : Block} (read : readBlock buf off = some b) :
    off + keySize ≤ buf.length := by
  unfold readBlock at read
  split at read
  · assumption
  · cases read

/-- A block inside the buffer can be read. -/
lemma readBlock_of_le {buf : Buffer} {off} (le : off + keySize ≤ buf.length) :
    ∃ b, readBlock buf off = some b :=
  ⟨_, dif_pos le⟩

/-- A string is read up to the first zero octet, if there is one. -/
lemma readString_isSome_iff {buf : Buffer} {off} :
    (readString buf off).isSome ↔ ∃ i, off ≤ i ∧ buf[i]? = some 0 := by
  have zero : (readString buf off).isSome ↔ 0 ∈ buf.drop off := by
    unfold readString
    have stops : off + ((buf.drop off).takeWhile (· ≠ 0)).length < buf.length ↔
        ((buf.drop off).takeWhile (· ≠ 0)).length < (buf.drop off).length := by
      rw [List.length_drop]
      omega
    rw [Option.isSome_ite, stops, List.takeWhile_eq_take_findIdx_not, List.length_take, min_lt_iff,
      or_iff_left (lt_irrefl _), List.findIdx_lt_length]
    simp
  rw [zero, List.mem_iff_getElem?]
  constructor
  · rintro ⟨i, e⟩
    rw [List.getElem?_drop] at e
    exact ⟨off + i, by omega, e⟩
  · rintro ⟨i, le, e⟩
    refine ⟨i - off, ?_⟩
    rw [List.getElem?_drop, Nat.add_sub_cancel' le, e]

/-- What stands between two parts of a buffer is read there. -/
lemma readBytes_append {front l back : List Byte} {off n} (hf : front.length = off)
    (hl : l.length = n) : readBytes (front ++ l ++ back) off n = some l := by
  subst hf hl
  refine readBytes_eq_some.mpr ⟨?_, rfl, fun i hi => ?_⟩
  · rw [List.length_append, List.length_append]
    omega
  · rw [List.append_assoc, List.getElem?_append_right (by omega), Nat.add_sub_cancel_left,
      List.getElem?_append_left hi]

/-- A block in the middle of a buffer is read back. -/
lemma readBlock_append {front back : List Byte} {b : Block} {off} (hf : front.length = off) :
    readBlock (front ++ List.ofFn b ++ back) off = some b := by
  subst hf
  refine readBlock_eq_some.mpr fun i => ?_
  rw [List.append_assoc, List.getElem?_append_right (by omega), Nat.add_sub_cancel_left,
    List.getElem?_append_left (by rw [List.length_ofFn]; exact i.isLt), List.getElem?_ofFn,
    dif_pos i.isLt]

/-- The octets after a write that stays inside the buffer. -/
lemma writeBytes_getElem? {buf buf' : Buffer} {off data} (w : writeBytes buf off data = some buf')
    (i : Nat) :
    buf'[i]? = if off ≤ i ∧ i < off + data.length then data[i - off]? else buf[i]? := by
  unfold writeBytes at w
  split at w
  · next le =>
    cases w
    split
    · next inside =>
      rw [List.append_assoc, List.getElem?_append_right (by rw [List.length_take]; omega),
        List.length_take, Nat.min_eq_left (by omega), List.getElem?_append_left (by omega)]
    · next outside =>
      by_cases before : i < off
      · rw [List.append_assoc, List.getElem?_append_left (by rw [List.length_take]; omega),
          List.getElem?_take_of_lt before]
      · rw [List.getElem?_append_right (by rw [List.length_append, List.length_take]; omega),
          List.length_append, List.length_take, List.getElem?_drop]
        congr 1
        omega
  · cases w

/-- A write that stays inside the buffer succeeds. -/
lemma writeBytes_of_le (buf : Buffer) (off : Nat) (data : List Byte)
    (le : off + data.length ≤ buf.length) :
    ∃ buf', writeBytes buf off data = some buf' ∧ buf'.length = buf.length := by
  refine ⟨_, if_pos le, ?_⟩
  simp only [List.length_append, List.length_take, List.length_drop]
  omega

/-- A write stays inside the buffer and keeps its length. -/
lemma writeBytes_length {buf buf' : Buffer} {off data} (w : writeBytes buf off data = some buf') :
    off + data.length ≤ buf.length ∧ buf'.length = buf.length := by
  have le : off + data.length ≤ buf.length := by
    by_contra gt
    rw [writeBytes, if_neg gt] at w
    cases w
  obtain ⟨_, w', len⟩ := writeBytes_of_le buf off data le
  rw [w] at w'
  cases w'
  exact ⟨le, len⟩

/-- What was written is read back. -/
lemma readBytes_write_self {buf buf' : Buffer} {off data}
    (w : writeBytes buf off data = some buf') : readBytes buf' off data.length = some data := by
  obtain ⟨le, len⟩ := writeBytes_length w
  refine readBytes_eq_some.mpr ⟨by omega, rfl, fun i hi => ?_⟩
  rw [writeBytes_getElem? w, if_pos ⟨by omega, by omega⟩, Nat.add_sub_cancel_left]

/-- A read next to a write is not affected by it. -/
lemma readBytes_write_other {buf buf' : Buffer} {off data off' n}
    (w : writeBytes buf off data = some buf')
    (apart : off' + n ≤ off ∨ off + data.length ≤ off') :
    readBytes buf' off' n = readBytes buf off' n := by
  have len := (writeBytes_length w).2
  apply Option.ext
  intro l
  rw [readBytes_eq_some, readBytes_eq_some, len]
  refine and_congr_right fun _ => and_congr_right fun _ => forall₂_congr fun i hi => ?_
  rw [writeBytes_getElem? w, if_neg (by omega)]

/-- A block that was written is read back. -/
lemma readBlock_write_self {buf buf' : Buffer} {off} {b : Block}
    (w : writeBytes buf off (List.ofFn b) = some buf') : readBlock buf' off = some b := by
  refine readBlock_eq_some.mpr fun i => ?_
  have hi := i.isLt
  rw [writeBytes_getElem? w, List.length_ofFn, if_pos ⟨by omega, by omega⟩,
    Nat.add_sub_cancel_left, List.getElem?_ofFn, dif_pos hi]

/-- A block next to a write is not affected by it. -/
lemma readBlock_write_other {buf buf' : Buffer} {off data off'}
    (w : writeBytes buf off data = some buf')
    (apart : off' + keySize ≤ off ∨ off + data.length ≤ off') :
    readBlock buf' off' = readBlock buf off' := by
  apply Option.ext
  intro b
  rw [readBlock_eq_some, readBlock_eq_some]
  refine forall_congr' fun i => ?_
  have hi := i.isLt
  rw [writeBytes_getElem? w, if_neg (by omega)]

end NetBlast
