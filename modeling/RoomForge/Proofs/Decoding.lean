import RoomForge.Code.Encoding
import RoomForge.Proofs.Fallible
import RoomForge.Proofs.Fields

set_option autoImplicit false

/-! # Reading code back

The reader beside `encode`, as the engine reads a function: from the first byte on, an opcode and
its operands (specification, table of section 4.3). A string ends with the first zero byte, and a
jump leads to the instruction that starts so many bytes from the end of the jump. What was encoded
is read back if no string holds the character zero (`decode_of_encode`), and only then
(`zeroFree_of_decode`).

The reader is no part of the program. The table gives it, and no module of the compiler uses it.
-/

namespace RoomForge.Code

open RoomForge.Script

/-! ## The opcode table -/

/-- Reads what stands behind an opcode. A jump is given by its distance in bytes. -/
def readOperands (opcode : UInt8) (rest : Bytes) : Option (Instr Int16 × Bytes) :=
  match opcode with
  | 0x01 => (Bytes.readSignedWord rest).map (Prod.map .pushWord id)
  | 0x02 => (Bytes.readText rest).map (Prod.map .pushString id)
  | 0x03 => (Bytes.readByte rest).map (Prod.map .loadLocal id)
  | 0x04 => (Bytes.readByte rest).map (Prod.map .storeLocal id)
  | 0x05 => (Bytes.readWord rest).map (Prod.map .loadGlobal id)
  | 0x06 => (Bytes.readWord rest).map (Prod.map .storeGlobal id)
  | 0x10 => some (.binary .add, rest)
  | 0x11 => some (.binary .sub, rest)
  | 0x12 => some (.binary .mul, rest)
  | 0x13 => some (.binary .div, rest)
  | 0x14 => some (.binary .mod, rest)
  | 0x15 => some (.binary .eq, rest)
  | 0x16 => some (.binary .ne, rest)
  | 0x17 => some (.binary .lt, rest)
  | 0x18 => some (.binary .le, rest)
  | 0x19 => some (.binary .gt, rest)
  | 0x1a => some (.binary .ge, rest)
  | 0x1b => some (.binary .and, rest)
  | 0x1c => some (.binary .or, rest)
  | 0x1d => some (.unary .neg, rest)
  | 0x1e => some (.unary .not, rest)
  | 0x20 => (Bytes.readSignedWord rest).map (Prod.map .jump id)
  | 0x21 => (Bytes.readSignedWord rest).map (Prod.map .jumpIfFalse id)
  | 0x30 => (Bytes.readWord rest).map (Prod.map .startScript id)
  | 0x31 => do
    let (number, rest) ← Bytes.readByte rest
    let (argc, rest) ← Bytes.readByte rest
    some (.callBuiltin number argc, rest)
  | 0x32 => some (.pop, rest)
  | 0x40 => some (.stop, rest)
  | _ => none

/-- Reads one instruction. -/
def readInstr : Bytes.Reader (Instr Int16)
  | [] => none
  | opcode :: rest => readOperands opcode rest

/-- The bytes behind the opcode of an instruction whose jump is given by its distance in bytes. -/
def Instr.operands : Instr Int16 → Bytes
  | .pushWord value | .jump value | .jumpIfFalse value => Bytes.signedWord value
  | .pushString text => Text.utf8 text ++ [0]
  | .loadLocal slot | .storeLocal slot => [slot]
  | .loadGlobal id | .storeGlobal id | .startScript id => Bytes.word id
  | .callBuiltin id argc => [id, argc]
  | .binary _ | .unary _ | .pop | .stop => []

/-- The bytes of an instruction whose jump is given by its distance in bytes. -/
def Instr.bytes (instr : Instr Int16) : Bytes :=
  instr.opcode :: instr.operands

/-- An instruction does not push a string that holds the character zero. -/
def Instr.ZeroFree {τ : Type} (instr : Instr τ) : Prop :=
  ∀ text, instr = .pushString text → '\x00' ∉ text.toList

theorem readInstr_takes {instr : Instr Int16} (h : instr.ZeroFree) :
    Bytes.Reader.Takes readInstr instr.bytes instr := by
  intro rest
  cases instr with
  | pushWord value | jump value | jumpIfFalse value =>
    simp [Instr.bytes, Instr.opcode, Instr.operands, readInstr, readOperands,
      Bytes.readSignedWord_takes value rest]
  | pushString text =>
    have htext := Bytes.readText_takes (h text rfl) rest
    simp only [Instr.bytes, Instr.opcode, Instr.operands, List.cons_append, readInstr, readOperands,
      htext]
    rfl
  | loadGlobal value | storeGlobal value | startScript value =>
    simp [Instr.bytes, Instr.opcode, Instr.operands, readInstr, readOperands,
      Bytes.readWord_takes value rest]
  | loadLocal slot | storeLocal slot => rfl
  | callBuiltin id argc => rfl
  | binary op => cases op <;> rfl
  | unary op => cases op <;> rfl
  | pop => rfl
  | stop => rfl

/-- An instruction that is read never pushes a string that holds the character zero. -/
theorem zeroFree_of_readInstr {bytes rest : Bytes} {instr : Instr Int16}
    (h : readInstr bytes = some (instr, rest)) : instr.ZeroFree := by
  rintro text rfl
  cases bytes with
  | nil => exact absurd h (by simp [readInstr])
  | cons opcode behind =>
    simp only [readInstr] at h
    unfold readOperands at h
    split at h
    case h_2 =>
      obtain ⟨⟨found, _⟩, hfound, hpair⟩ := Option.map_eq_some_iff.mp h
      obtain ⟨hinstr, rfl⟩ := Prod.mk.inj hpair
      obtain rfl := Instr.pushString.inj hinstr
      exact Bytes.zero_notMem_of_readText hfound
    all_goals simp [Option.bind_eq_some_iff] at h

/-! ## Targets of jumps -/

section

variable {τ σ : Type}

/-- Replaces the target of a jump, if it has a replacement. -/
def Instr.mapTarget? (f : τ → Option σ) : Instr τ → Option (Instr σ)
  | .pushWord value => some (.pushWord value)
  | .pushString text => some (.pushString text)
  | .loadLocal slot => some (.loadLocal slot)
  | .storeLocal slot => some (.storeLocal slot)
  | .loadGlobal id => some (.loadGlobal id)
  | .storeGlobal id => some (.storeGlobal id)
  | .binary op => some (.binary op)
  | .unary op => some (.unary op)
  | .jump target => (f target).map .jump
  | .jumpIfFalse target => (f target).map .jumpIfFalse
  | .startScript number => some (.startScript number)
  | .callBuiltin id argc => some (.callBuiltin id argc)
  | .pop => some .pop
  | .stop => some .stop

theorem Instr.size_of_mapTarget? {f : τ → Option σ} {instr : Instr τ} {mapped : Instr σ}
    (h : instr.mapTarget? f = some mapped) : mapped.size = instr.size := by
  cases instr with
  | jump target | jumpIfFalse target =>
    obtain ⟨place, _, rfl⟩ := Option.map_eq_some_iff.mp h
    rfl
  | _ =>
    obtain rfl := Option.some.inj h
    rfl

theorem Instr.opcode_of_mapTarget? {f : τ → Option σ} {instr : Instr τ} {mapped : Instr σ}
    (h : instr.mapTarget? f = some mapped) : mapped.opcode = instr.opcode := by
  cases instr with
  | jump target | jumpIfFalse target =>
    obtain ⟨place, _, rfl⟩ := Option.map_eq_some_iff.mp h
    rfl
  | unary op =>
    obtain rfl := Option.some.inj h
    cases op <;> rfl
  | _ =>
    obtain rfl := Option.some.inj h
    rfl

theorem Instr.zeroFree_of_mapTarget? {f : τ → Option σ} {instr : Instr τ} {mapped : Instr σ}
    (h : instr.mapTarget? f = some mapped) : mapped.ZeroFree ↔ instr.ZeroFree := by
  cases instr with
  | jump target | jumpIfFalse target =>
    obtain ⟨place, _, rfl⟩ := Option.map_eq_some_iff.mp h
    simp [Instr.ZeroFree]
  | _ =>
    obtain rfl := Option.some.inj h
    simp [Instr.ZeroFree]

/-- Replacements that can be taken back give the instruction back. -/
theorem Instr.mapTarget?_of_mapTarget? {f : τ → Option σ} {g : σ → Option τ} {instr : Instr τ}
    {mapped : Instr σ} (hback : ∀ target place, f target = some place → g place = some target)
    (h : instr.mapTarget? f = some mapped) : mapped.mapTarget? g = some instr := by
  cases instr with
  | jump target | jumpIfFalse target =>
    obtain ⟨place, hplace, rfl⟩ := Option.map_eq_some_iff.mp h
    simp [Instr.mapTarget?, hback target place hplace]
  | _ =>
    obtain rfl := Option.some.inj h
    rfl

/-- The first byte of instruction number `index`: the instructions before it take so many. -/
def byteStart (instrs : List (Instr τ)) (index : Nat) : Nat :=
  ((instrs.take index).map Instr.size).sum

theorem Instr.size_pos (instr : Instr τ) : 0 < instr.size := by
  cases instr <;> simp only [Instr.size] <;> omega

/-- Later instructions start later. -/
theorem byteStart_lt {instrs : List (Instr τ)} {first second : Nat} (hlt : first < second)
    (hsecond : second ≤ instrs.length) : byteStart instrs first < byteStart instrs second := by
  induction second with
  | zero => omega
  | succ second ih =>
    have hstep : byteStart instrs (second + 1) = byteStart instrs second + instrs[second].size := by
      rw [byteStart, List.take_add_one, List.getElem?_eq_getElem hsecond, List.map_append,
        List.sum_append]
      simp [byteStart]
    have hpos := instrs[second].size_pos
    rcases Nat.lt_succ_iff_lt_or_eq.mp hlt with hbefore | rfl
    · have hrest := ih hbefore (by omega)
      omega
    · omega

theorem byteStarts_toList (instrs : List (Instr τ)) :
    (byteStarts instrs).toList = (List.range (instrs.length + 1)).map (byteStart instrs) := by
  have hfold : ∀ (rest : List (Instr τ)) (starts : Array Nat) (total : Nat),
      rest.foldl (fun (acc : Array Nat × Nat) instr => (acc.1.push acc.2, acc.2 + instr.size))
          (starts, total) =
        (starts ++ ((List.range rest.length).map fun index => total + byteStart rest index).toArray,
          total + (rest.map Instr.size).sum) := by
    intro rest
    induction rest with
    | nil => intro starts total; simp
    | cons instr rest ih =>
      intro starts total
      rw [List.foldl_cons, ih, List.length_cons, List.range_succ_eq_map]
      simp [byteStart, Function.comp_def, Nat.add_assoc]
  unfold byteStarts
  rw [hfold]
  simp [List.range_succ, byteStart]

/-- A table of starts holds the start of every instruction and the end of the last one. -/
theorem getElem?_byteStarts (instrs : List (Instr τ)) (index : Nat) :
    (byteStarts instrs)[index]? =
      if index ≤ instrs.length then some (byteStart instrs index) else none := by
  rw [← Array.getElem?_toList, byteStarts_toList]
  split
  · next hle => simp [Nat.lt_succ_of_le hle]
  · next hgt => simp; omega

end

/-- The number of the instruction that a jump over `distance` bytes leads to, counted from the end
of instruction number `index`. -/
def landing? {τ : Type} (instrs : List (Instr τ)) (index : Nat) (distance : Int16) : Option Nat :=
  (List.range (instrs.length + 1)).find? fun target =>
    (byteStart instrs target : Int) = byteStart instrs (index + 1) + distance.toInt

/-- Reads a function's code from its first byte to its last. -/
def decode (bytes : Bytes) : Option (List (Instr Nat)) := do
  let instrs ← Bytes.readMany readInstr bytes
  instrs.zipIdx.mapM fun (instr, index) => instr.mapTarget? (landing? instrs index)

/-- A jump is written if both of its ends are places of the code and the way between them is a
signed word. -/
theorem jumpDistance_eq_ok_iff {function : String} {instrs : List (Instr Nat)} {index target : Nat}
    {distance : Int16} :
    jumpDistance function (byteStarts instrs) index target = .ok distance ↔
      target ≤ instrs.length ∧ index + 1 ≤ instrs.length ∧
        (byteStart instrs target : Int) = byteStart instrs (index + 1) + distance.toInt := by
  unfold jumpDistance
  rw [getElem?_byteStarts, getElem?_byteStarts]
  by_cases hplaces : target ≤ instrs.length ∧ index + 1 ≤ instrs.length
  · obtain ⟨htarget, hindex⟩ := hplaces
    simp only [htarget, hindex, if_true, true_and]
    generalize (byteStart instrs target : Int) = there
    generalize (byteStart instrs (index + 1) : Int) = here
    constructor
    · intro h
      split at h
      · next hrange =>
        rw [← Except.ok.inj h, Int16.toInt_ofInt_of_le hrange.1 (by omega)]
        omega
      · exact absurd h (by simp)
    · intro h
      have hdistance : there - here = distance.toInt := by omega
      have hlow := distance.le_toInt
      have hhigh := distance.toInt_lt
      rw [hdistance, if_pos ⟨hlow, by omega⟩, Int16.ofInt_toInt]
  · refine iff_of_false ?_ fun h => hplaces ⟨h.1, h.2.1⟩
    intro h
    split at h
    · next hthere hhere =>
      rw [Option.ite_none_right_eq_some] at hthere hhere
      exact hplaces ⟨hthere.1, hhere.1⟩
    · exact absurd h (by simp)

/-- A jump that was written leads back to its target. -/
theorem landing?_of_jumpDistance {function : String} {instrs : List (Instr Nat)}
    {index target : Nat}
    {distance : Int16}
    (h : jumpDistance function (byteStarts instrs) index target = .ok distance) :
    landing? instrs index distance = some target := by
  obtain ⟨htarget, _, hdistance⟩ := jumpDistance_eq_ok_iff.mp h
  unfold landing?
  rw [List.find?_range_eq_some]
  refine ⟨by simpa using hdistance, List.mem_range.mpr (by omega), ?_⟩
  -- Instructions before the target start before it.
  intro other hother
  have hlt := byteStart_lt hother htarget
  simp only [Bool.not_eq_true', decide_eq_false_iff_not]
  omega

theorem byteStart_congr {τ σ : Type} {first : List (Instr τ)} {second : List (Instr σ)}
    (h : first.map Instr.size = second.map Instr.size) : byteStart first = byteStart second := by
  funext index
  rw [byteStart, byteStart, List.map_take, List.map_take, h]

theorem landing?_congr {τ σ : Type} {first : List (Instr τ)} {second : List (Instr σ)}
    (h : first.map Instr.size = second.map Instr.size) : landing? first = landing? second := by
  have hlength : first.length = second.length := by simpa using congrArg List.length h
  unfold landing?
  rw [hlength, byteStart_congr h]

/-! ## What was encoded -/

/-- An instruction with the distance to its target in place of the target. -/
def Instr.measured? (function : String) (instrs : List (Instr Nat)) (index : Nat) :
    Instr Nat → Option (Instr Int16) :=
  Instr.mapTarget? fun target =>
    (jumpDistance function (byteStarts instrs) index target).toOption

theorem operandBytes_eq_ok_iff {function : String} {instrs : List (Instr Nat)} {index : Nat}
    {instr : Instr Nat} {operands : Bytes} :
    operandBytes function (byteStarts instrs) index instr = .ok operands ↔
      ∃ measured, instr.measured? function instrs index = some measured ∧
        operands = measured.operands := by
  cases instr with
  | jump target | jumpIfFalse target =>
    simp only [operandBytes, Instr.measured?, Instr.mapTarget?]
    cases jumpDistance function (byteStarts instrs) index target with
    | error fault => simp [Except.map, Except.toOption]
    | ok distance => simp [Except.map, Except.toOption, Instr.operands, eq_comm]
  | _ => simp [operandBytes, Instr.measured?, Instr.mapTarget?, Instr.operands, eq_comm]

/-- Code is encoded instruction by instruction. -/
theorem encode_eq_ok_iff {function : String} {instrs : List (Instr Nat)} {bytes : Bytes} :
    encode function instrs = .ok bytes ↔ ∃ measured : List (Instr Int16),
      List.Forall₂ (fun (numbered : Instr Nat × Nat) instr =>
        numbered.1.measured? function instrs numbered.2 = some instr) instrs.zipIdx measured ∧
        bytes = measured.flatMap Instr.bytes := by
  have hpiece : ∀ (numbered : Instr Nat × Nat) (piece : Bytes),
      (operandBytes function (byteStarts instrs) numbered.2 numbered.1 >>= fun operands =>
        Except.ok (numbered.1.opcode :: operands)) = .ok piece ↔
      ∃ measured, numbered.1.measured? function instrs numbered.2 = some measured ∧
        piece = measured.bytes := by
    intro numbered piece
    rw [bind_eq_ok_iff]
    constructor
    · rintro ⟨operands, hoperands, hpiece⟩
      obtain ⟨measured, hmeasured, rfl⟩ := operandBytes_eq_ok_iff.mp hoperands
      rw [← Instr.opcode_of_mapTarget? hmeasured] at hpiece
      exact ⟨measured, hmeasured, (Except.ok.inj hpiece).symm⟩
    · rintro ⟨measured, hmeasured, rfl⟩
      refine ⟨_, operandBytes_eq_ok_iff.mpr ⟨measured, hmeasured, rfl⟩, ?_⟩
      rw [← Instr.opcode_of_mapTarget? hmeasured]
      rfl
  unfold encode
  rw [bind_eq_ok_iff]
  simp only [mapM_eq_ok_iff, hpiece, forall₂_exists_iff]
  constructor
  · rintro ⟨pieces, ⟨measured, hmeasured, rfl⟩, hbytes⟩
    exact ⟨measured, hmeasured, (Except.ok.inj hbytes).symm⟩
  · rintro ⟨measured, hmeasured, rfl⟩
    exact ⟨_, ⟨measured, hmeasured, rfl⟩, rfl⟩

/-- Measured code takes as many bytes, instruction by instruction. -/
theorem sizes_of_measured? {function : String} {instrs : List (Instr Nat)}
    {measured : List (Instr Int16)}
    (h : List.Forall₂ (fun (numbered : Instr Nat × Nat) instr =>
      numbered.1.measured? function instrs numbered.2 = some instr) instrs.zipIdx measured) :
    measured.map Instr.size = instrs.map Instr.size := by
  have hviews := map_eq_map_of_forall₂ (f := Instr.size ∘ Prod.fst) (g := Instr.size) h
    fun numbered instr hinstr => (Instr.size_of_mapTarget? hinstr).symm
  rw [← hviews, ← List.map_map, List.zipIdx_map_fst]

/-- No string that is read back holds the character zero. -/
theorem zeroFree_of_decode {bytes : Bytes} {instrs : List (Instr Nat)}
    (h : decode bytes = some instrs) : ∀ instr ∈ instrs, instr.ZeroFree := by
  intro instr hinstr
  obtain ⟨read, hread, hall⟩ := Option.bind_eq_some_iff.mp h
  obtain ⟨numbered, hnumbered, htarget⟩ :=
    exists_left_of_forall₂ (mapM_eq_some_iff.mp hall) hinstr
  have hmem : numbered.1 ∈ read := List.fst_mem_of_mem_zipIdx hnumbered
  obtain ⟨front, rest, hfront⟩ := Bytes.exists_read_of_mem_readMany hread hmem
  exact (Instr.zeroFree_of_mapTarget? htarget).mpr (zeroFree_of_readInstr hfront)

/-- Encoded code is read back if no string holds the character zero. -/
theorem decode_of_encode {function : String} {instrs : List (Instr Nat)} {bytes : Bytes}
    (h : encode function instrs = .ok bytes) (hfree : ∀ instr ∈ instrs, instr.ZeroFree) :
    decode bytes = some instrs := by
  obtain ⟨measured, hmeasured, rfl⟩ := encode_eq_ok_iff.mp h
  have hback := (forall₂_zipIdx_comm (R := fun instr index found =>
    Instr.measured? function instrs index instr = some found)).mp hmeasured
  have hsizes := sizes_of_measured? hmeasured
  have hread : Bytes.readMany readInstr (measured.flatMap Instr.bytes) = some measured := by
    apply Bytes.readMany_flatMap
    · intro instr hinstr
      obtain ⟨numbered, hnumbered, htarget⟩ := exists_left_of_forall₂ hmeasured hinstr
      apply readInstr_takes
      apply (Instr.zeroFree_of_mapTarget? htarget).mpr
      exact hfree numbered.1 (List.fst_mem_of_mem_zipIdx hnumbered)
    · intro instr _
      exact List.cons_ne_nil _ _
  refine Option.bind_eq_some_iff.mpr ⟨measured, hread, mapM_eq_some_iff.mpr ?_⟩
  refine hback.imp fun numbered instr hinstr => ?_
  apply Instr.mapTarget?_of_mapTarget? _ hinstr
  intro target distance hdistance
  rw [landing?_congr hsizes]
  exact landing?_of_jumpDistance (toOption_eq_some_iff.mp hdistance)

end RoomForge.Code
