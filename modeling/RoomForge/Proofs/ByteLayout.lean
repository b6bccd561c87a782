import RoomForge.Proofs.Decoding
import RoomForge.Proofs.Emission

set_option autoImplicit false

/-! # Where instructions stand in the bytes

Instructions are written one behind the other, each with as many bytes as its size says. So the
first byte of an instruction is known before anything is written, and the distance that a jump
writes leads from the end of the jump to the first byte of its target (specification, table of
section 4.3). Code is refused only where such a distance is no signed word.

`encoding_is_exact_and_invertible` puts this together with the reader of `Proofs.Decoding`.
-/

namespace RoomForge.Code

/-! ## Sizes -/

/-- The size of an instruction counts the bytes that it is written with. -/
theorem Instr.length_bytes (instr : Instr Int16) : instr.bytes.length = instr.size := by
  cases instr with
  | pushString text =>
    simp only [Instr.bytes, Instr.operands, Instr.size, List.length_cons, List.length_append,
      Text.length_utf8, List.length_nil]
    omega
  | _ => simp [Instr.bytes, Instr.operands, Instr.size]

theorem length_flatMap_bytes (instrs : List (Instr Int16)) :
    (instrs.flatMap Instr.bytes).length = (instrs.map Instr.size).sum := by
  rw [List.length_flatMap, List.map_congr_left fun instr _ => instr.length_bytes]

/-- Behind the bytes of the first instructions stand the bytes of the others. -/
theorem drop_byteStart (instrs : List (Instr Int16)) (index : Nat) :
    (instrs.flatMap Instr.bytes).drop (byteStart instrs index) =
      (instrs.drop index).flatMap Instr.bytes := by
  have hfront : ((instrs.take index).flatMap Instr.bytes).length = byteStart instrs index :=
    length_flatMap_bytes (instrs.take index)
  conv_lhs => rw [← List.take_append_drop index instrs, List.flatMap_append]
  rw [List.take_append_drop, ← hfront, List.drop_left]

/-- An instruction is read from its first byte, and the next one starts behind it. -/
theorem readInstr_drop_byteStart {instrs : List (Instr Int16)} {index : Nat} {instr : Instr Int16}
    (hinstr : instrs[index]? = some instr) (hfree : instr.ZeroFree) :
    readInstr ((instrs.flatMap Instr.bytes).drop (byteStart instrs index)) =
      some (instr, (instrs.flatMap Instr.bytes).drop (byteStart instrs (index + 1))) := by
  obtain ⟨hindex, rfl⟩ := List.getElem?_eq_some_iff.mp hinstr
  rw [drop_byteStart, drop_byteStart, List.drop_eq_getElem_cons hindex, List.flatMap_cons]
  exact readInstr_takes hfree _

/-! ## Distances -/

/-- The way from the end of instruction number `index` to the start of number `target`, in bytes. -/
def distance {τ : Type} (instrs : List (Instr τ)) (index target : Nat) : Int :=
  byteStart instrs target - byteStart instrs (index + 1)

/-- The distance from each jump to its target is a signed word. -/
def InReach (instrs : List (Instr Nat)) : Prop :=
  ∀ numbered ∈ instrs.zipIdx, ∀ target ∈ numbered.1.target?,
    -32768 ≤ distance instrs numbered.2 target ∧ distance instrs numbered.2 target ≤ 32767

instance (instrs : List (Instr Nat)) : Decidable (InReach instrs) := by
  unfold InReach
  infer_instance

variable {function : String} {instrs : List (Instr Nat)}

/-- A jump inside the code has a distance in bytes exactly if it is in reach. -/
theorem exists_jumpDistance_iff {index target : Nat} (hindex : index < instrs.length)
    (htarget : target ≤ instrs.length) :
    (∃ written, jumpDistance function (byteStarts instrs) index target = .ok written) ↔
      -32768 ≤ distance instrs index target ∧ distance instrs index target ≤ 32767 := by
  simp only [jumpDistance_eq_ok_iff, htarget, Nat.succ_le_of_lt hindex, true_and, distance]
  constructor
  · rintro ⟨written, hwritten⟩
    have hlow := written.le_toInt
    have hhigh := written.toInt_lt
    omega
  · intro ⟨hlow, hhigh⟩
    refine ⟨Int16.ofInt (byteStart instrs target - byteStart instrs (index + 1)), ?_⟩
    rw [Int16.toInt_ofInt_of_le hlow (by omega)]
    omega

/-- An instruction is written exactly if it is no jump or its target is in reach. -/
theorem exists_measured_iff {numbered : Instr Nat × Nat} (hmem : numbered ∈ instrs.zipIdx)
    (htargets : ∀ target ∈ numbered.1.target?, target ≤ instrs.length) :
    (∃ measured, numbered.1.measured? function instrs numbered.2 = some measured) ↔
      ∀ target ∈ numbered.1.target?, -32768 ≤ distance instrs numbered.2 target ∧
        distance instrs numbered.2 target ≤ 32767 := by
  obtain ⟨instr, index⟩ := numbered
  have hindex : index < instrs.length :=
    (List.getElem?_eq_some_iff.mp (List.mem_zipIdx_iff_getElem?.mp hmem)).1
  cases instr with
  | jump target | jumpIfFalse target =>
    have htarget : target ≤ instrs.length := htargets target rfl
    simp [Instr.measured?, Instr.mapTarget?, Instr.target?, toOption_eq_some_iff,
      exists_jumpDistance_iff hindex htarget]
  | _ => simp [Instr.measured?, Instr.mapTarget?, Instr.target?]

/-- Code with all targets in it is written exactly if all of its jumps are in reach. -/
theorem exists_encode_iff
    (htargets : ∀ instr ∈ instrs, ∀ target ∈ instr.target?, target ≤ instrs.length) :
    (∃ bytes, encode function instrs = .ok bytes) ↔ InReach instrs := by
  have hiff (numbered : Instr Nat × Nat) (hmem : numbered ∈ instrs.zipIdx) :=
    @exists_measured_iff function instrs numbered hmem
      (htargets numbered.1 (List.fst_mem_of_mem_zipIdx hmem))
  constructor
  · rintro ⟨bytes, hbytes⟩ numbered hmem
    obtain ⟨measured, hmeasured, -⟩ := encode_eq_ok_iff.mp hbytes
    obtain ⟨found, -, hfound⟩ := exists_left_of_forall₂ hmeasured.flip hmem
    exact (hiff numbered hmem).mp ⟨found, hfound⟩
  · intro hreach
    obtain ⟨measured, hmeasured⟩ := exists_forall₂ fun numbered hmem =>
      (hiff numbered hmem).mpr (hreach numbered hmem)
    exact ⟨_, encode_eq_ok_iff.mpr ⟨measured, hmeasured, rfl⟩⟩

/-- Code with all targets in it is refused only for being too large. -/
theorem encode_avoids_other
    (htargets : ∀ instr ∈ instrs, ∀ target ∈ instr.target?, target ≤ instrs.length) :
    Avoids (· ≠ .tooLarge function) (encode function instrs) := by
  refine encode_avoids_of_jumps fun index instr hinstr target htarget => ?_
  have hindex : index + 1 ≤ instrs.length := (List.getElem?_eq_some_iff.mp hinstr).1
  have htarget : target ≤ instrs.length :=
    htargets instr (List.mem_of_getElem? hinstr) target htarget
  unfold jumpDistance
  rw [getElem?_byteStarts, getElem?_byteStarts, if_pos htarget, if_pos hindex]
  simp only
  split
  · exact .ok
  · exact .error (by simp)

/-! ## The written code -/

/-- The bytes of code: each instruction stands where the sizes before it end, a jump's distance
leads from its own end to the start of its target, and a reader finds the code again. -/
structure LaidOut (instrs : List (Instr Nat)) (bytes : Bytes) : Prop where
  length_eq : bytes.length = (instrs.map Instr.size).sum
  starts : ∀ index instr, instrs[index]? = some instr → ∃ written : Instr Int16,
    readInstr (bytes.drop (byteStart instrs index)) =
      some (written, bytes.drop (byteStart instrs (index + 1))) ∧
    written.mapTarget (fun _ => ()) = instr.mapTarget (fun _ => ()) ∧
    ∀ target ∈ instr.target?, ∃ offset ∈ written.target?,
      (byteStart instrs (index + 1) : Int) + offset.toInt = byteStart instrs target
  decode_eq : decode bytes = some instrs

/-- A measured instruction differs from its original in the target alone, which is given by its
distance. -/
theorem Instr.of_measured? {index : Nat} {instr : Instr Nat} {written : Instr Int16}
    (h : instr.measured? function instrs index = some written) :
    written.mapTarget (fun _ => ()) = instr.mapTarget (fun _ => ()) ∧
      ∀ target ∈ instr.target?, ∃ offset ∈ written.target?,
        (byteStart instrs (index + 1) : Int) + offset.toInt = byteStart instrs target := by
  cases instr with
  | jump target | jumpIfFalse target =>
    obtain ⟨offset, hoffset, rfl⟩ := Option.map_eq_some_iff.mp h
    obtain ⟨-, -, hway⟩ := jumpDistance_eq_ok_iff.mp (toOption_eq_some_iff.mp hoffset)
    refine ⟨rfl, fun other hother => ⟨offset, rfl, ?_⟩⟩
    rw [← Option.some.inj hother]
    exact hway.symm
  | _ =>
    obtain rfl := Option.some.inj h
    exact ⟨rfl, fun target htarget => absurd htarget (by simp [Instr.target?])⟩

theorem laidOut_of_encode {bytes : Bytes} (h : encode function instrs = .ok bytes)
    (hfree : ∀ instr ∈ instrs, instr.ZeroFree) : LaidOut instrs bytes := by
  have hdecode := decode_of_encode h hfree
  obtain ⟨measured, hmeasured, rfl⟩ := encode_eq_ok_iff.mp h
  have hsizes := sizes_of_measured? hmeasured
  refine ⟨?_, ?_, hdecode⟩
  · rw [length_flatMap_bytes, hsizes]
  · intro index instr hinstr
    have hnumbered : instrs.zipIdx[index]? = some (instr, index) := by simp [hinstr]
    obtain ⟨written, hwritten, hmeasure⟩ := exists_getElem?_of_forall₂ hmeasured hnumbered
    have hzero : written.ZeroFree :=
      (Instr.zeroFree_of_mapTarget? hmeasure).mpr (hfree instr (List.mem_of_getElem? hinstr))
    refine ⟨written, ?_, Instr.of_measured? hmeasure⟩
    rw [← byteStart_congr hsizes]
    exact readInstr_drop_byteStart hwritten hzero

/-- Code whose strings hold no character zero and whose jumps lead to instructions or to the end is
written if all jumps are in reach, and refused as too large otherwise. What is written is laid out
by the sizes of the instructions and can be read back. -/
theorem encoding_is_exact_and_invertible (function : String) (instrs : List (Instr Nat))
    (hfree : ∀ instr ∈ instrs, instr.ZeroFree)
    (htargets : ∀ instr ∈ instrs, ∀ target ∈ instr.target?, target ≤ instrs.length) :
    (InReach instrs → ∃ bytes, encode function instrs = .ok bytes ∧ LaidOut instrs bytes) ∧
      (¬ InReach instrs → encode function instrs = .error (.tooLarge function)) := by
  constructor
  · intro hreach
    obtain ⟨bytes, hbytes⟩ := (exists_encode_iff htargets).mpr hreach
    exact ⟨bytes, hbytes, laidOut_of_encode hbytes hfree⟩
  · intro hfar
    cases hencode : encode function instrs with
    | ok bytes => exact absurd ((exists_encode_iff htargets).mp ⟨bytes, hencode⟩) hfar
    | error fault =>
      have hfault := encode_avoids_other htargets fault hencode
      rw [Decidable.not_not.mp hfault]

/-- Jumps forwards, backwards and to the end of the code. -/
def knockingCode : List (Instr Nat) :=
  [.pushString "ré", .jumpIfFalse 4, .pop, .jump 0, .jump 5]

theorem knockingCode_is_exact_and_invertible :
    (∀ instr ∈ knockingCode, instr.ZeroFree) ∧ InReach knockingCode ∧
      ∃ bytes, encode "knock" knockingCode = .ok bytes ∧ LaidOut knockingCode bytes := by
  have hfree : ∀ instr ∈ knockingCode, instr.ZeroFree := by
    intro instr hinstr text htext
    subst htext
    have hword : text = "ré" := by simpa [knockingCode] using hinstr
    subst hword
    decide
  have hreach : InReach knockingCode := by decide
  exact ⟨hfree, hreach,
    (encoding_is_exact_and_invertible "knock" knockingCode hfree (by decide)).1 hreach⟩

end RoomForge.Code
