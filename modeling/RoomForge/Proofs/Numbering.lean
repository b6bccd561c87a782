import Mathlib.Algebra.Ring.Nat
import RoomForge.Proofs.Assembly

set_option autoImplicit false

/-! # The numbers of functions

The functions of a room are numbered from `firstNumber` on in words of 16 bits, in the order in
which its scripts have them (specification, sections 4.3 and 10). The counter goes on as soon as a
function has its number, and at the last word the run ends: `numbers_rise_to_the_end` says that the
numbers of every accepted room rise, and `full_crowd_is_well_numbered` that all numbers but the last
word are used before the run ends.

Section 10 asks for numbers that rise and says nothing of their end, where a counter that starts
again would give a number twice.
-/

namespace RoomForge.Script

open Grammar

/-! ## Functions that do nothing -/

/-- Items are read from the next token on. -/
theorem itemsFrom_eq (cs : List Char) (line : Nat) (taken : List Item) :
    itemsFrom cs line taken =
      match skipTrivia .blank cs line with
      | .error e => (.error e :: taken).reverse
      | .ok ([], line) => (.ok ⟨.eof, line⟩ :: taken).reverse
      | .ok (c :: rest, line) =>
          itemsFrom (readItem c rest line).rest (readItem c rest line).line
            ((readItem c rest line).item :: taken) := by
  rw [itemsFrom]
  split
  all_goals next hskipped => rw [hskipped]

theorem itemsFrom_blank (cs : List Char) (line : Nat) (taken : List Item) :
    itemsFrom (' ' :: cs) line taken = itemsFrom cs line taken := by
  have hskip : skipTrivia .blank (' ' :: cs) line = skipTrivia .blank cs line := rfl
  rw [itemsFrom_eq, hskip, ← itemsFrom_eq]

theorem itemsFrom_sign {c : Char} {cs : List Char} {sign : Punct} {line : Nat}
    {taken : List Item} (hskip : skipTrivia .blank (c :: cs) line = .ok (c :: cs, line))
    (hsign : Punct.read? (c :: cs) = some (sign, cs)) :
    itemsFrom (c :: cs) line taken = itemsFrom cs line (.ok ⟨.punct sign, line⟩ :: taken) := by
  rw [itemsFrom_eq, hskip]
  dsimp only
  rw [readItem, hsign]

/-- A word ends with the first character that no name goes on with. -/
theorem itemsFrom_word {stop : Char} {word rest : List Char} {line : Nat} {taken : List Item}
    (hword : ∀ c ∈ word, isNamePart c = true) (hstop : isNamePart stop = false) :
    itemsFrom ('f' :: (word ++ stop :: rest)) line taken =
      itemsFrom (stop :: rest) line (.ok ⟨wordToken ('f' :: word), line⟩ :: taken) := by
  have htake : (word ++ stop :: rest).takeWhile isNamePart = word := by
    rw [List.takeWhile_append_of_pos hword, List.takeWhile_cons_of_neg (by simp [hstop]),
      List.append_nil]
  have hdrop : (word ++ stop :: rest).dropWhile isNamePart = stop :: rest := by
    rw [List.dropWhile_append_of_pos hword, List.dropWhile_cons_of_neg (by simp [hstop])]
  have hread : readItem 'f' (word ++ stop :: rest) line =
      ⟨.ok ⟨wordToken ('f' :: (word ++ stop :: rest).takeWhile isNamePart), line⟩,
        (word ++ stop :: rest).dropWhile isNamePart, line⟩ := rfl
  have hskip : skipTrivia .blank ('f' :: (word ++ stop :: rest)) line =
      .ok ('f' :: (word ++ stop :: rest), line) := rfl
  rw [itemsFrom_eq, hskip]
  dsimp only
  rw [hread, htake, hdrop]

/-- The name of the function behind `index` others. -/
def idleName (index : Nat) : List Char := 'f' :: Nat.toDigits 10 index

theorem wordToken_idleName (index : Nat) :
    wordToken (idleName index) = .ident (String.ofList (idleName index)) := by
  rw [wordToken]
  split
  · next keyword hkeyword =>
    have htext := Keyword.text_of_ofText? hkeyword
    have hletters : keyword.text.toList.all (fun c => !c.isDigit) = true := by
      cases keyword <;> decide
    obtain ⟨c, hc⟩ := List.exists_mem_of_ne_nil _ (Nat.toDigits_ne_nil (n := index) (b := 10))
    have hmem : c ∈ keyword.text.toList := by
      rw [htext, String.toList_ofList]
      exact List.mem_cons_of_mem _ hc
    have hdigit := Nat.isDigit_of_mem_toDigits (by decide) (by decide) hc
    exact absurd (List.all_eq_true.mp hletters c hmem) (by simp [hdigit])
  · rfl

theorem idleName_injective {first second : Nat} (h : idleName first = idleName second) :
    first = second := by
  have hvalue := congrArg (fun digits => Nat.ofDigitChars 10 digits 0) (List.tail_eq_of_cons_eq h)
  simpa only [Nat.ofDigitChars_ten_toDigits] using hvalue

/-- The text of a function that does nothing, such as `function f7() { } `. -/
def idleText (index : Nat) : List Char :=
  'f' :: ("unction".toList ++ ' ' ::
    (idleName index ++ ['(', ')', ' ', '\x7b', ' ', '\x7d', ' ']))

/-- Its tokens. -/
def idleLexemes (index : Nat) : List Lexeme :=
  [word .functionWord 1, ⟨.ident (String.ofList (idleName index)), 1⟩, sign .lparen 1,
    sign .rparen 1, sign .lbrace 1, sign .rbrace 1]

/-- The function. -/
def idle (index : Nat) : Routine where
  name := String.ofList (idleName index)
  kind := .normal
  body := .block 1 []
  line := 1

theorem itemsFrom_idleText (index : Nat) (rest : List Char) (taken : List Item) :
    itemsFrom (idleText index ++ rest) 1 taken =
      itemsFrom rest 1 ((itemsOf (idleLexemes index)).reverse ++ taken) := by
  have hdigits : ∀ c ∈ Nat.toDigits 10 index, isNamePart c = true := by
    intro c hc
    have hdigit := Nat.isDigit_of_mem_toDigits (by decide) (by decide) hc
    simp [isNamePart, Char.isAlphanum, hdigit]
  have hletters : "unction".toList.all isNamePart = true := by decide
  have htext : idleText index ++ rest = 'f' :: ("unction".toList ++ ' ' ::
      ('f' :: (Nat.toDigits 10 index ++
        '(' :: ')' :: ' ' :: '\x7b' :: ' ' :: '\x7d' :: ' ' :: rest))) := by
    simp only [idleText, idleName, List.append_assoc, List.cons_append, List.nil_append]
  rw [htext, itemsFrom_word (List.all_eq_true.mp hletters) (by decide), itemsFrom_blank,
    itemsFrom_word hdigits (by decide), itemsFrom_sign rfl rfl, itemsFrom_sign rfl rfl,
    itemsFrom_blank, itemsFrom_sign rfl rfl, itemsFrom_blank, itemsFrom_sign rfl rfl,
    itemsFrom_blank, ← idleName, wordToken_idleName]
  rfl

theorem itemsFrom_flatMap_idleText (indices : List Nat) (taken : List Item) :
    itemsFrom (indices.flatMap idleText) 1 taken =
      taken.reverse ++ itemsOf (indices.flatMap idleLexemes ++ [⟨.eof, 1⟩]) := by
  induction indices generalizing taken with
  | nil =>
    have hskip : skipTrivia .blank [] 1 = .ok ([], 1) := rfl
    rw [List.flatMap_nil, itemsFrom_eq, hskip]
    exact List.reverse_cons
  | cons index rest ih =>
    rw [List.flatMap_cons, itemsFrom_idleText, ih, List.reverse_append, List.reverse_reverse,
      List.flatMap_cons, List.append_assoc, List.append_assoc, itemsOf_append (idleLexemes index)]

theorem whole_flatMap_idleLexemes (indices : List Nat) :
    Whole (indices.flatMap idleLexemes ++ [⟨.eof, 1⟩]) { routines := indices.map idle } := by
  induction indices with
  | nil => exact .eof 1
  | cons index rest ih =>
    rw [List.flatMap_cons, List.append_assoc]
    exact .routine (.normal 1 (.mk _ 1 1 1 1 1 .nil)) ih

theorem parse_flatMap_idleText (indices : List Nat) :
    parse (String.ofList (indices.flatMap idleText)) = .ok { routines := indices.map idle } := by
  refine parse_of_whole ?_ (whole_flatMap_idleLexemes indices)
  rw [items, String.toList_ofList, itemsFrom_flatMap_idleText]
  rfl

end RoomForge.Script

namespace RoomForge.Room

open RoomForge.Code RoomForge.Script

/-- The functions of a room that have numbers, in order. -/
def startable (room : RoomForge.Room) : List Routine :=
  room.routines.filter fun routine => !routine.isInlined

/-- The numbers of a room are as its scripts need them: they rise, so that no two functions share
one, and the engine keeps those below the first to itself. -/
def WellNumbered (room : RoomForge.Room) : Prop :=
  ∃ numbers : List UInt16, room.startable.map Routine.number = numbers.map some ∧
    numbers.Pairwise (· < ·) ∧ ∀ number ∈ numbers, firstNumber ≤ number

/-! ## Counting -/

/-- The number of the function behind `index` others. -/
def numberAt (index : Nat) : UInt16 := firstNumber + UInt16.ofNat index

theorem toNat_numberAt {index : Nat} (h : index < numberCapacity) :
    (numberAt index).toNat = firstNumber.toNat + index := by
  have hfirst : firstNumber.toNat = 200 := rfl
  have hcapacity : numberCapacity = 65335 := rfl
  rw [numberAt, UInt16.toNat_add, UInt16.toNat_ofNat', hfirst]
  omega

/-- The functions that get numbers get them in order, without a gap. -/
theorem numbers_numberFrom (next : UInt16) (routines : List Routine) :
    ((numberFrom next routines).filter fun routine => !routine.isInlined).map Routine.number =
      (List.range (numberedCount routines)).map fun index =>
        some (next + UInt16.ofNat index) := by
  unfold numberedCount
  induction routines generalizing next with
  | nil => rfl
  | cons routine rest ih =>
    cases hinlined : routine.isInlined with
    | true => simp [numberFrom, hinlined, ih]
    | false =>
      have hnumbered : ({ routine with number := some next } : Routine).isInlined = false :=
        hinlined
      rw [numberFrom, hinlined, if_neg (by simp), List.filter_cons_of_pos (by simp [hnumbered]),
        List.countP_cons_of_pos (by simp [hinlined]), List.range_succ_eq_map, List.map_cons, ih]
      simp [Function.comp_def, UInt16.add_assoc, UInt16.add_comm]

/-! ## The numbers of a room -/

theorem Made.numbers_startable {id : UInt8} {source : Source} {scripts : List Declarations}
    {room : RoomForge.Room} (h : Made id source scripts room) :
    room.startable.map Routine.number =
      ((List.range (numberedCount (freeOf source.objects (scripts.flatMap (·.routines))))).map
        numberAt).map some := by
  have hfilter : room.startable.map Routine.number =
      ((room.routines.map Routine.uncompiled).filter fun routine => !routine.isInlined).map
        Routine.number := by
    rw [List.filter_map, List.map_map]
    rfl
  rw [hfilter, h.uncompiled_routines, numbers_numberFrom, List.map_map]
  rfl

theorem Made.length_startable {id : UInt8} {source : Source} {scripts : List Declarations}
    {room : RoomForge.Room} (h : Made id source scripts room) :
    room.startable.length =
      numberedCount (freeOf source.objects (scripts.flatMap (·.routines))) := by
  simpa using congrArg List.length h.numbers_startable

theorem Made.number_of_inlined {id : UInt8} {source : Source} {scripts : List Declarations}
    {room : RoomForge.Room} (h : Made id source scripts room) {routine : Routine}
    (hroutine : routine ∈ room.routines) (hinlined : routine.isInlined = true) :
    routine.number = none := by
  have hmem := List.mem_map_of_mem (f := Routine.uncompiled) hroutine
  rw [h.uncompiled_routines] at hmem
  obtain ⟨declared, hdeclared, hnumbered⟩ := exists_of_mem_numberFrom hmem
  split at hnumbered
  · have hnone := (h.isWritten declared (List.mem_of_mem_filter hdeclared)).number
    rw [← hnumbered] at hnone
    exact hnone
  · next hnormal =>
    obtain ⟨number, hroutine⟩ := hnumbered
    have hkind : routine.uncompiled.isInlined = declared.isInlined := by rw [hroutine]; rfl
    exact absurd (hkind.symm.trans hinlined) hnormal

/-- Numbers in a row are as scripts need them, as long as there are words for them. -/
theorem wellNumbered_of_range {room : RoomForge.Room} {count : Nat}
    (h : room.startable.map Routine.number = ((List.range count).map numberAt).map some)
    (hcount : count ≤ numberCapacity) : room.WellNumbered := by
  refine ⟨(List.range count).map numberAt, h, ?_, ?_⟩
  · rw [List.pairwise_map]
    refine List.pairwise_lt_range.imp_of_mem ?_
    intro first second hfirst hsecond hlt
    rw [List.mem_range] at hfirst hsecond
    rw [UInt16.lt_iff_toNat_lt, toNat_numberAt (by omega), toNat_numberAt (by omega)]
    omega
  · intro number hnumber
    obtain ⟨index, hindex, rfl⟩ := List.mem_map.mp hnumber
    rw [List.mem_range] at hindex
    rw [UInt16.le_iff_toNat_le, toNat_numberAt (by omega)]
    omega

/-! ## A crowd -/

theorem withCode_of_empty (room : Scope) {routine : Routine} {line : Nat}
    (h : routine.body = .block line []) :
    (withCode room routine).result = .ok { routine with code := some [0x40] } := by
  obtain ⟨name, kind, body, start, number, code⟩ := routine
  obtain rfl : body = .block line [] := h
  rfl

/-- A room with `count` functions, none of which does anything. -/
def crowd (count : Nat) : Source where
  name := "room"
  background := .empty
  scripts := [⟨"main", String.ofList ((List.range count).flatMap idleText)⟩]

theorem name_idle_ne {name : String} (h : name.toList.head? ≠ some 'f') (index : Nat) :
    (idle index).name ≠ name := by
  rintro rfl
  apply h
  rw [idle, String.toList_ofList]
  rfl

theorem ofName_idle (index : Nat) : Role.ofName (idle index).name [] = .free :=
  Role.ofName_eq_free_iff.mpr
    ⟨name_idle_ne (by decide) index, name_idle_ne (by decide) index, by simp⟩

theorem named?_map_idle {name : String} (h : name.toList.head? ≠ some 'f') (indices : List Nat) :
    named? (indices.map idle) name = none := by
  rw [named?_eq_none_iff, List.map_map, List.mem_map]
  rintro ⟨index, -, hname⟩
  exact name_idle_ne h index hname

theorem freeOf_map_idle (indices : List Nat) : freeOf [] (indices.map idle) = indices.map idle := by
  apply List.filter_eq_self.mpr
  intro routine hroutine
  obtain ⟨index, -, rfl⟩ := List.mem_map.mp hroutine
  simp [ofName_idle]

theorem numberedCount_freeOf_map_idle (indices : List Nat) :
    numberedCount (freeOf [] (indices.map idle)) = indices.length := by
  rw [freeOf_map_idle, numberedCount, List.countP_map]
  exact List.countP_eq_length.mpr fun _ _ => rfl

theorem nodup_map_idle (count : Nat) :
    (((List.range count).map idle).map Routine.name).Nodup := by
  rw [List.map_map, List.Nodup, List.pairwise_map]
  refine List.nodup_range.imp fun hne hsame => hne (idleName_injective ?_)
  exact String.ofList_injective hsame

theorem admissible_map_idle {count : Nat} (h : count ≤ numberCapacity) :
    Admissible [] ((List.range count).map idle) := by
  refine ⟨nodup_map_idle count, ?_, ?_⟩
  · intro routine hroutine _
    obtain ⟨index, -, rfl⟩ := List.mem_map.mp hroutine
    rfl
  · rwa [numberedCount_freeOf_map_idle, List.length_range]

/-- What is read of a crowd. -/
def crowdScripts (count : Nat) : List Declarations :=
  [{ routines := (List.range count).map idle }]

theorem flatMap_crowdScripts (count : Nat) :
    (crowdScripts count).flatMap (·.routines) = (List.range count).map idle := by
  simp [crowdScripts]

theorem bound_routines_crowd (count : Nat) :
    (boundOf (crowd count) (crowdScripts count)).routines =
      numberFrom firstNumber ((List.range count).map idle) := by
  rw [Made.bound_routines, flatMap_crowdScripts]
  exact congrArg (numberFrom firstNumber) (freeOf_map_idle (List.range count))

theorem body_of_mem_codedOf_crowd {count : Nat} {routine : Routine}
    (h : routine ∈ codedOf (crowd count) (crowdScripts count)) :
    ∃ line, routine.body = .block line [] := by
  have hnone (name : String) (hname : name.toList.head? ≠ some 'f') :
      named? ((crowdScripts count).flatMap (·.routines)) name = none := by
    rw [flatMap_crowdScripts]
    exact named?_map_idle hname _
  simp only [codedOf, List.mem_append, List.mem_cons, List.not_mem_nil, or_false] at h
  rcases h with (hroutine | rfl | rfl) | hverb
  · have hbody := List.mem_map_of_mem (f := Routine.body) (List.mem_of_mem_filter hroutine)
    rw [bound_routines_crowd, map_numberFrom (fun _ _ => rfl)] at hbody
    obtain ⟨_, hidle, hsame⟩ := List.mem_map.mp hbody
    obtain ⟨index, -, rfl⟩ := List.mem_map.mp hidle
    exact ⟨1, hsame.symm⟩
  · rw [boundOf, Bound.ofScripts, hnone "entry" (by decide)]
    exact ⟨0, rfl⟩
  · rw [boundOf, Bound.ofScripts, hnone "exit" (by decide)]
    exact ⟨0, rfl⟩
  · exact absurd hverb List.not_mem_nil

theorem nodup_constants_crowd (count : Nat) :
    ((Engine.constants ++ Registry.resourceConstants (crowd count)).map Constant.name).Nodup := by
  have hresources : Registry.resourceConstants (crowd count) = [] := rfl
  rw [hresources, List.append_nil]
  decide +kernel

/-- A crowd is accepted as long as there are numbers for all of it. -/
theorem exists_made_crowd {count : Nat} (h : count ≤ numberCapacity) :
    ∃ room, Made 1 (crowd count) (crowdScripts count) room := by
  refine exists_made (.cons (parse_flatMap_idleText _) .nil) ?_ ?_ ?_
  · rw [flatMap_crowdScripts]
    exact admissible_map_idle h
  · have hscripts : (crowdScripts count).flatMap (·.constants) = [] := rfl
    rw [constantsOf, hscripts, List.append_nil]
    exact nodup_constants_crowd count
  · intro routine hroutine
    obtain ⟨line, hbody⟩ := body_of_mem_codedOf_crowd hroutine
    exact ⟨_, withCode_of_empty _ hbody⟩

theorem range_eq_append_cons {full count : Nat} (h : full < count) :
    ∃ behind, List.range count = List.range full ++ full :: behind := by
  obtain ⟨more, rfl⟩ := Nat.exists_eq_add_of_le (Nat.succ_le_of_lt h)
  refine ⟨(List.range more).map (full + 1 + ·), ?_⟩
  rw [Nat.succ_eq_add_one, List.range_add, List.range_succ, List.append_assoc,
    List.singleton_append]

section

-- The number of functions that get numbers is a variable here: a range up to a literal would be
-- evaluated.
variable {full : Nat} (hfull : full = numberCapacity)

include hfull

theorem result_fold_idle {bindings : Bindings} {constants : List Constant}
    (h : bindings.Binds [] constants []) (behind : List Routine) :
    (Report.fold Bindings.addRoutine bindings
      ((List.range full).map idle ++ idle full :: behind)).result =
        .error (.outOfNumbers (idle full).name) := by
  have hcount : numberedCount (freeOf [] ((List.range full).map idle)) = numberCapacity := by
    rw [numberedCount_freeOf_map_idle, List.length_range, hfull]
  have hnew := nodup_map_idle (full + 1)
  rw [List.range_succ, List.map_append] at hnew
  exact h.fold_addRoutine_of_full (by simp) ⟨List.nodup_nil, by simp, Nat.zero_le _⟩
    (admissible_map_idle (Nat.le_of_eq hfull)) hcount (nodup_map_append_singleton_iff.mp hnew).2
    (ofName_idle full) rfl

/-- In a crowd that is too large, the function behind the last number ends the run. -/
theorem bindScripts_crowd {count : Nat} (h : full < count) :
    (bindScripts (crowd count).name (crowd count).scripts []).result =
      .error (.outOfNumbers (idle full).name) := by
  obtain ⟨behind, hrange⟩ := range_eq_append_cons h
  have hbinds := (Bindings.binds_start []).addConstants []
  have hfold := result_fold_idle hfull hbinds (behind.map idle)
  rw [← List.map_cons, ← List.map_append, ← hrange] at hfold
  have hparse :
      parse (ScriptSource.mk "main" (String.ofList ((List.range count).flatMap idleText))).text =
        .ok { routines := (List.range count).map idle } := parse_flatMap_idleText (List.range count)
  rw [result_bindScripts, Report.result_fold, crowd, List.foldlM_cons,
    Bindings.result_addScript hparse, hfold]
  rfl

theorem compile_crowd {count : Nat} (h : full < count) :
    (Session.compile {} (crowd count)).2.result = .error (.outOfNumbers (idle full).name) := by
  obtain ⟨registry, hregistry⟩ : ∃ registry, Registry.insertAll {}
      (Engine.constants ++ Registry.resourceConstants (crowd count)) = .ok registry :=
    Registry.exists_insertAll {} (nodup_constants_crowd count)
  have hassemble : (assemble 1 (crowd count)).result = .error (.outOfNumbers (idle full).name) := by
    have hobjects : (mergeColors (crowd count).palette (crowd count).objects
        (crowd count).costumes).objects = [] := rfl
    rw [result_assemble, Registry.result_ofResources, hregistry, ok_bind]
    dsimp only
    rw [hobjects, bindScripts_crowd hfull h]
    rfl
  exact hassemble

end

theorem length_startable_crowd {count : Nat} {room : RoomForge.Room}
    (h : Made 1 (crowd count) (crowdScripts count) room) : room.startable.length = count := by
  have hlength := h.length_startable
  rw [flatMap_crowdScripts] at hlength
  exact hlength.trans ((numberedCount_freeOf_map_idle _).trans List.length_range)

/-! ## How far the numbers go -/

/-- The functions of an accepted room that are not inlined have the numbers from 200 on, in order;
inlined functions have none. However many functions its scripts have, at most 65335 of them are
numbered in an accepted room, so that the numbers rise to the end and never start over. -/
theorem numbers_rise_to_the_end {session : Session} {source : Source} {room : RoomForge.Room}
    (h : (session.compile source).2.result = .ok room) :
    (∀ routine ∈ room.routines, routine.isInlined = true → routine.number = none) ∧
    (∀ index routine, room.startable[index]? = some routine →
      routine.number = some (UInt16.ofNat (200 + index))) ∧
    room.startable.length ≤ 65335 ∧ room.WellNumbered := by
  obtain ⟨-, scripts, hmade⟩ := Session.compile_eq_ok_iff.mp h
  have hnumbers := hmade.numbers_startable
  have hcount := hmade.admissible.countable
  refine ⟨fun routine hroutine => hmade.number_of_inlined hroutine, ?_,
    Nat.le_trans (Nat.le_of_eq hmade.length_startable) hcount,
    wellNumbered_of_range hnumbers hcount⟩
  intro index routine hroutine
  have hnumber : (room.startable.map Routine.number)[index]? = some routine.number := by
    rw [List.getElem?_map, hroutine]
    rfl
  rw [hnumbers, List.map_map, List.getElem?_map, Option.map_eq_some_iff] at hnumber
  obtain ⟨place, hplace, hsame⟩ := hnumber
  obtain ⟨hindex, rfl⟩ := List.getElem?_eq_some_iff.mp hplace
  rw [← hsame, List.getElem_range, Function.comp_apply, numberAt, UInt16.ofNat_add]
  rfl

/-- A crowd of 65335 functions uses all numbers up to 65534. With a function more the run ends. -/
theorem full_crowd_is_well_numbered :
    (∃ room, (Session.compile {} (crowd 65335)).2.result = .ok room ∧
      room.startable.length = 65335 ∧ room.WellNumbered ∧
      ∀ routine, room.startable[65334]? = some routine → routine.number = some 65534) ∧
    (Session.compile {} (crowd 65336)).2.result = .error (.outOfNumbers "f65335") := by
  constructor
  · obtain ⟨room, hmade⟩ := exists_made_crowd (Nat.le_refl numberCapacity)
    have hroom : (Session.compile {} (crowd 65335)).2.result = .ok room :=
      Session.compile_eq_ok_iff.mpr ⟨by decide, _, hmade⟩
    obtain ⟨-, hnumbers, -, hrise⟩ := numbers_rise_to_the_end hroom
    exact ⟨room, hroom, length_startable_crowd hmade, hrise, hnumbers 65334⟩
  · exact compile_crowd rfl (by decide)

end RoomForge.Room
