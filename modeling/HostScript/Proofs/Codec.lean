import HostScript.Program.Codec
import HostScript.Proofs.NameMap

/-!
# HostScript.Proofs.Codec

The bytes of a program say where they end.  `Takes x bytes a` is the notion behind everything here:
the decoder `x` finds `a` in exactly these bytes, leaves whatever stands behind them alone, and asks
for more as long as one of them is missing.  It composes along the steps of a decoder, so each part
of a program has one lemma that follows its encoder.

Addresses, counts and lengths are written without a bound and read with one.  `Fits` says that they
are numbers of sixty-four bits; `Program.sizes` lists all of them.
-/

namespace HostScript

namespace Codec

variable {α β : Type}

/-! ## decoders -/

/-- `x` reads exactly `bytes` and finds `a` there. -/
structure Takes (x : Decode α) (bytes : Bytes) (a : α) : Prop where
  whole : ∀ rest, x (bytes ++ rest) = .ok (a, rest)
  cut : ∀ front, front <+: bytes → front ≠ bytes → x front = .error .endOfData

namespace Takes

variable {x : Decode α} {bytes more : Bytes} {a : α} {b : β}

theorem ofPure (a : α) : Takes (pure a : Decode α) [] a where
  whole _ := rfl
  cut _ starts shorter := absurd (List.prefix_nil.1 starts) shorter

/-- Two decoders one after the other read what they read one after the other. -/
theorem bind {f : α → Decode β} (first : Takes x bytes a) (second : Takes (f a) more b) :
    Takes (x >>= f) (bytes ++ more) b where
  whole rest := by
    show (x (bytes ++ more ++ rest) >>= fun p => f p.1 p.2) = _
    rw [List.append_assoc, first.whole]
    exact second.whole rest
  cut front starts shorter := by
    show (x front >>= fun p => f p.1 p.2) = _
    rcases List.prefix_or_prefix_of_prefix starts (List.prefix_append bytes more) with within | past
    · by_cases all : front = bytes
      · -- The first decoder has all of its bytes, the second one none of its own.
        subst all
        have missing : [] ≠ more := by
          rintro rfl
          exact shorter (by simp)
        rw [← List.append_nil front, first.whole]
        exact second.cut [] (List.nil_prefix) missing
      · rw [first.cut front within all]
        rfl
    · obtain ⟨rest, rfl⟩ := past
      have starts' : rest <+: more := (List.prefix_append_right_inj bytes).1 starts
      have shorter' : rest ≠ more := fun same => shorter (by rw [same])
      rw [first.whole]
      exact second.cut rest starts' shorter'

/-- A decoder behind which nothing more is read. -/
theorem last {f : α → Decode β} (h : Takes x bytes a) (ends : f a = pure b) :
    Takes (x >>= f) bytes b := by
  have nothing : Takes (f a) [] b := by
    rw [ends]
    exact ofPure b
  have all := h.bind nothing
  rwa [List.append_nil] at all

/-- A result may be changed behind the reader. -/
theorem map {f : α → β} (h : Takes x bytes a) : Takes (f <$> x) bytes (f a) := by
  rw [map_eq_pure_bind]
  exact h.last rfl

end Takes

/-! ## integers -/

/-- A byte holds numbers below 256. -/
theorem toNat_ofNat_of_lt {n : Nat} (h : n < 256) : (UInt8.ofNat n).toNat = n := by
  rw [UInt8.toNat_ofNat']
  exact Nat.mod_eq_of_lt h

/-- Of a single byte nothing can be missing but all of it. -/
theorem eq_nil_of_cut {front : Bytes} {byte : UInt8} (starts : front <+: [byte])
    (shorter : front ≠ [byte]) : front = [] := by
  cases front with
  | nil => rfl
  | cons first rest =>
      obtain ⟨rfl, nothing⟩ := List.cons_prefix_cons.1 starts
      exact absurd (by rw [List.prefix_nil.1 nothing]) shorter

/-- A byte with its high bit clear is a number by itself. -/
theorem takes_byte {last limit n : Nat} (h : n < 128) (bounded : limit = 0 → n ≤ last) :
    Takes (decodeNat last (limit + 1)) [UInt8.ofNat n] n where
  whole rest := by
    have value : (UInt8.ofNat n).toNat = n := toNat_ofNat_of_lt (by omega)
    have ends : UInt8.ofNat n < 128 := by
      rw [UInt8.lt_iff_toNat_lt, value]
      exact h
    rw [List.singleton_append, decodeNat, if_pos ends, value, if_neg (by omega)]
  cut front starts shorter := by
    rw [eq_nil_of_cut starts shorter]
    rfl

/-- A byte with its high bit set has others behind it. -/
theorem decodeNat_cons {last limit low : Nat} {rest : Bytes} (h : low < 128) :
    decodeNat last (limit + 1) (UInt8.ofNat (low + 128) :: rest) =
      (decodeNat last limit rest).map fun high => (low + 128 * high.1, high.2) := by
  have value : (UInt8.ofNat (low + 128)).toNat = low + 128 := toNat_ofNat_of_lt (by omega)
  have more : ¬ UInt8.ofNat (low + 128) < 128 := by
    rw [UInt8.lt_iff_toNat_lt, value]
    exact Nat.not_lt.2 (Nat.le_add_left 128 low)
  have bits : (low + 128) % 128 = low := by omega
  rw [decodeNat, if_neg more, value, bits]
  cases decodeNat last limit rest <;> rfl

/-- A number below the limit is read back: the limit counts the bytes, and the last of them is
bounded as well. -/
theorem takes_nat {last : Nat} (small : last < 128) (limit n : Nat)
    (h : n < (last + 1) * Nat.pow 128 limit) :
    Takes (decodeNat last (limit + 1)) (encodeNat n) n := by
  induction limit generalizing n with
  | zero =>
      have least : n < last + 1 := by simpa using h
      rw [encodeNat, if_pos (show n < 128 by omega)]
      exact takes_byte (by omega) fun _ => by omega
  | succ limit ih =>
      by_cases single : n < 128
      · rw [encodeNat, if_pos single]
        exact takes_byte single nofun
      · have low : n % 128 < 128 := Nat.mod_lt n (by omega)
        have fewer : n / 128 < (last + 1) * Nat.pow 128 limit := by
          refine Nat.div_lt_of_lt_mul ?_
          rw [Nat.mul_left_comm, Nat.mul_comm 128]
          exact h
        have high := ih (n / 128) fewer
        rw [encodeNat, if_neg single]
        refine ⟨fun rest => ?_, fun front starts shorter => ?_⟩
        · rw [List.cons_append, decodeNat_cons low, high.whole rest]
          show Except.ok (n % 128 + 128 * (n / 128), rest) = _
          rw [Nat.mod_add_div]
        · cases front with
          | nil => rfl
          | cons first front =>
              obtain ⟨rfl, starts'⟩ := List.cons_prefix_cons.1 starts
              have shorter' : front ≠ encodeNat (n / 128) := fun same => shorter (by rw [same])
              rw [decodeNat_cons low, high.cut front starts' shorter']
              rfl

/-- A short number is read back. -/
theorem takes_short (n : UInt16) : Takes decodeShort (encodeNat n.toNat) n := by
  have number : Takes (decodeNat 3 3) (encodeNat n.toNat) n.toNat :=
    takes_nat (by decide) 2 n.toNat n.toNat_lt
  have found := number.map (f := UInt16.ofNat)
  rwa [UInt16.ofNat_toNat] at found

/-- The number of a choice is read back, since it fits in one byte. -/
theorem takes_choice {n : Nat} (h : n < 128) : Takes decodeChoice (encodeNat n) n :=
  takes_nat (by decide) 4 n (Nat.lt_of_lt_of_le h (by decide))

/-- A size is read back if it fits in a word. -/
theorem takes_size {n : Nat} (h : n < UInt64.size) : Takes decodeSize (encodeNat n) n :=
  takes_nat (by decide) 9 n h

/-! ## bytes and words -/

/-- As many bytes are read as there are. -/
theorem takes_bytes (bytes : Bytes) : Takes (decodeBytes bytes.length) bytes bytes where
  whole rest := by simp [decodeBytes]
  cut front starts shorter := by
    have fewer : ¬ bytes.length ≤ front.length := fun enough =>
      shorter (starts.eq_of_length_le enough)
    rw [decodeBytes, if_neg fewer]

/-- The low bytes of a number, the lowest first, make up the number as far as they go. -/
theorem littleEndian_range (count n : Nat) :
    littleEndian ((List.range count).map fun i => UInt8.ofNat (n / Nat.pow 256 i)) =
      n % Nat.pow 256 count := by
  induction count generalizing n with
  | zero =>
      show 0 = n % 1
      omega
  | succ count ih =>
      have higher (i : Nat) : n / Nat.pow 256 (i + 1) = n / 256 / Nat.pow 256 i := by
        rw [Nat.div_div_eq_div_mul, Nat.mul_comm]
        rfl
      have split : n % (256 * Nat.pow 256 count) =
          n % 256 + 256 * (n / 256 % Nat.pow 256 count) := Nat.mod_mul
      have power : Nat.pow 256 (count + 1) = 256 * Nat.pow 256 count := Nat.mul_comm ..
      rw [power, split, ← ih (n / 256), List.range_succ_eq_map, List.map_cons, List.map_map]
      simp only [Function.comp_def, Nat.succ_eq_add_one, higher]
      show (UInt8.ofNat (n / 1)).toNat + 256 * _ = _
      rw [Nat.div_one, UInt8.toNat_ofNat']
      rfl

/-- A word is read back, byte by byte. -/
theorem takes_word (w : UInt64) : Takes decodeWord (encodeWord w) w := by
  have length : (encodeWord w).length = 8 := by simp [encodeWord]
  have value : littleEndian (encodeWord w) = w.toNat := by
    rw [encodeWord, littleEndian_range]
    exact Nat.mod_eq_of_lt w.toNat_lt
  have found := (takes_bytes (encodeWord w)).last (b := w)
    (f := fun bytes => pure (UInt64.ofNat (littleEndian bytes)))
    (by rw [value, UInt64.ofNat_toNat])
  rw [length] at found
  exact found

/-! ## numbers that fit -/

/-- All of these numbers have at most sixty-four bits. -/
def Fits (sizes : List Nat) : Prop := ∀ n ∈ sizes, n < UInt64.size

instance (sizes : List Nat) : Decidable (Fits sizes) :=
  inferInstanceAs (Decidable (∀ n ∈ sizes, n < UInt64.size))

@[simp] theorem fits_cons {n : Nat} {sizes : List Nat} :
    Fits (n :: sizes) ↔ n < UInt64.size ∧ Fits sizes := List.forall_mem_cons

@[simp] theorem fits_append {sizes others : List Nat} :
    Fits (sizes ++ others) ↔ Fits sizes ∧ Fits others := List.forall_mem_append

/-- `decode` undoes `encode` wherever the `sizes` that are written down fit. -/
def Restores (sizes : α → List Nat) (encode : α → Bytes) (decode : Decode α) : Prop :=
  ∀ a, Fits (sizes a) → Takes decode (encode a) a

variable {sizes : α → List Nat} {encode : α → Bytes} {decode : Decode α}

theorem restores_size : Restores (fun n => [n]) encodeNat decodeSize := fun _ fits =>
  takes_size (fits_cons.1 fits).1

/-! ## strings, lists and maps -/

def stringSizes (s : String) : List Nat := [s.utf8ByteSize]

/-- A string is read back if its length fits. -/
theorem restores_string : Restores stringSizes encodeString decodeString := by
  intro s fits
  have length : s.toUTF8.data.toList.length = s.utf8ByteSize := rfl
  have bytes : s.toUTF8.data.toList.toByteArray = s.toUTF8 := by
    apply ByteArray.ext
    rw [List.data_toByteArray, Array.toArray_toList]
  refine (takes_size (fits_cons.1 fits).1).bind ?_
  rw [← length]
  have decoded : String.fromUTF8? s.toUTF8 = some s := dif_pos s.isValidUTF8
  refine (takes_bytes s.toUTF8.data.toList).last ?_
  rw [bytes, decoded]

def listSizes (sizes : α → List Nat) (items : List α) : List Nat :=
  items.length :: items.flatMap sizes

/-- Items are read back one by one, by induction on their list. -/
theorem takes_items (h : Restores sizes encode decode) (items : List α)
    (fits : Fits (items.flatMap sizes)) :
    Takes (decodeItems decode items.length) (items.flatMap encode) items := by
  induction items with
  | nil => exact .ofPure []
  | cons item items ih =>
      rw [List.flatMap_cons, fits_append] at fits
      rw [List.flatMap_cons]
      exact (h item fits.1).bind ((ih fits.2).last rfl)

/-- A list is read back if its length and its items fit. -/
theorem Restores.list (h : Restores sizes encode decode) :
    Restores (listSizes sizes) (encodeList encode) (decodeList decode) := fun items fits =>
  (takes_size (fits_cons.1 fits).1).bind (takes_items h items (fits_cons.1 fits).2)

def mapSizes (sizes : α → List Nat) (m : NameMap α) : List Nat :=
  listSizes (fun entry => stringSizes entry.1 ++ sizes entry.2) m.entries

/-- A map is read back with its entries in order. -/
theorem Restores.nameMap (h : Restores sizes encode decode) :
    Restores (mapSizes sizes) (encodeMap encode) (decodeMap decode) := by
  intro m fits
  have entry : Restores (fun entry : String × α => stringSizes entry.1 ++ sizes entry.2)
      (fun entry => encodeString entry.1 ++ encode entry.2)
      (do
        let name ← decodeString
        return (name, ← decode)) := by
    intro e fits
    rw [fits_append] at fits
    exact (restores_string e.1 fits.1).bind ((h e.2 fits.2).last rfl)
  have found := (entry.list m.entries fits).last (b := m)
    (f := fun entries => pure (NameMap.ofList entries)) (by rw [NameMap.ofList_entries])
  exact found

/-! ## instructions -/

/-- An operator is read back, since each has a number of its own. -/
theorem takes_binaryOperator (op : BinaryOperator) :
    Takes decodeBinaryOperator (encodeBinaryOperator op) op :=
  (takes_choice (by cases op <;> decide)).last (by cases op <;> rfl)

theorem takes_unaryOperator (op : UnaryOperator) :
    Takes decodeUnaryOperator (encodeUnaryOperator op) op :=
  (takes_choice (by cases op <;> decide)).last (by cases op <;> rfl)

/-- An alternative with fields that are read together. -/
theorem takes_alternative {n : Nat} (h : n < 128) {f : Nat → Decode β} {x : Decode α}
    {make : α → β} {bytes : Bytes} {a : α} (same : f n = x >>= fun a => pure (make a))
    (field : Takes x bytes a) : Takes (decodeChoice >>= f) (encodeNat n ++ bytes) (make a) := by
  refine (takes_choice h).bind ?_
  rw [same]
  exact field.last rfl

def targetSizes : JumpTarget → List Nat
  | .address address => [address]
  | _ => []

/-- A target is read back by its kind. -/
theorem restores_target : Restores targetSizes encodeTarget decodeTarget := by
  intro target fits
  cases target with
  | unresolved | breakPoint | continuePoint => exact (takes_choice (by decide)).last rfl
  | address address =>
      exact takes_alternative (by decide) rfl (takes_size (fits_cons.1 fits).1)

def instructionSizes : Instruction → List Nat
  | .pushString s | .pushIdentifier s | .pushField s | .setIdentifier s | .setField s =>
    stringSizes s
  | .pushArgument index => [index]
  | .call name argc | .callInstance name argc => stringSizes name ++ [argc]
  | .callStatic template name argc => stringSizes template ++ (stringSizes name ++ [argc])
  | .binaryAnd target | .binaryOr target | .jump target | .jumpIf target | .jumpUnless target
  | .jumpPush target | .switchJump target => targetSizes target
  | _ => []

/-- An instruction is read back by its kind. -/
theorem restores_instruction : Restores instructionSizes encodeInstruction decodeInstruction := by
  intro i fits
  -- A name with a number of arguments behind it.
  have call {name : String} {argc : Nat} (fits : Fits (stringSizes name ++ [argc]))
      (make : String → Nat → Instruction) :
      Takes (do return make (← decodeString) (← decodeSize))
        (encodeString name ++ encodeNat argc) (make name argc) := by
    rw [fits_append, fits_cons] at fits
    exact (restores_string name fits.1).bind ((takes_size fits.2.1).last rfl)
  cases i with
  | pushNull | duplicate | discard | jumpPop | ret => exact (takes_choice (by decide)).last rfl
  | pushNumber value =>
      exact (takes_choice (n := 1) (by decide)).bind ((takes_word value.bits).last rfl)
  | pushString s | pushIdentifier s | pushField s | setIdentifier s | setField s =>
      exact takes_alternative (by decide) rfl (restores_string s fits)
  | pushArgument index => exact takes_alternative (by decide) rfl (takes_size (fits_cons.1 fits).1)
  | call name argc =>
      rw [encodeInstruction, List.append_assoc]
      exact (takes_choice (n := 8) (by decide)).bind (call fits .call)
  | callInstance name argc =>
      rw [encodeInstruction, List.append_assoc]
      exact (takes_choice (n := 9) (by decide)).bind (call fits .callInstance)
  | callStatic template name argc =>
      simp only [instructionSizes, fits_append] at fits
      simp only [encodeInstruction, List.append_assoc]
      exact (takes_choice (n := 10) (by decide)).bind ((restores_string template fits.1).bind
        (call (fits_append.2 fits.2) (.callStatic template)))
  | unaryOp op => exact takes_alternative (by decide) rfl (takes_unaryOperator op)
  | binaryOp op => exact takes_alternative (by decide) rfl (takes_binaryOperator op)
  | binaryAnd t | binaryOr t | jump t | jumpIf t | jumpUnless t | jumpPush t | switchJump t =>
      exact takes_alternative (by decide) rfl (restores_target t fits)

/-! ## the parts of a program -/

theorem takes_version (v : Version) : Takes decodeVersion (encodeVersion v) v := by
  rw [encodeVersion, List.append_assoc]
  exact (takes_short v.major).bind ((takes_short v.minor).bind ((takes_short v.patch).last rfl))

def locationSizes (l : CodeLocation) : List Nat := [l.source, l.line, l.column]

/-- A location is read back. -/
theorem restores_location : Restores locationSizes encodeLocation decodeLocation := by
  intro l fits
  simp only [locationSizes, fits_cons] at fits
  obtain ⟨source, line, column, -⟩ := fits
  rw [encodeLocation, List.append_assoc]
  exact (takes_size source).bind ((takes_size line).bind ((takes_size column).last rfl))

def functionSizes (f : ScriptFunction) : List Nat :=
  stringSizes f.name ++ (listSizes stringSizes f.parameters ++ [f.start, f.stop])

/-- A function is read back. -/
theorem restores_function : Restores functionSizes encodeFunction decodeFunction := by
  intro f fits
  simp only [functionSizes, fits_append, fits_cons] at fits
  obtain ⟨name, parameters, start, stop, -⟩ := fits
  simp only [encodeFunction, List.append_assoc]
  exact (restores_string f.name name).bind ((restores_string.list f.parameters parameters).bind
    ((takes_size start).bind ((takes_size stop).last rfl)))

end Codec

/-! ## programs -/

namespace Program

open Codec

/-- Every address, count and length that is written down with a program. -/
def sizes (p : Program) : List Nat :=
  listSizes instructionSizes p.instructions ++ (listSizes locationSizes p.locations ++
    (listSizes stringSizes p.sources.names ++ (mapSizes (listSizes functionSizes) p.functions ++
      mapSizes (fun address => [address]) p.labels)))

/-- A program is read back if all sizes in it fit. -/
theorem takes_program (p : Program) (fits : Fits p.sizes) :
    Takes decodeProgram (encodeProgram p) p := by
  simp only [sizes, fits_append] at fits
  obtain ⟨instructions, locations, sources, functions, labels⟩ := fits
  simp only [encodeProgram, List.append_assoc]
  exact (takes_version p.version).bind
    ((restores_instruction.list p.instructions instructions).bind
      ((restores_location.list p.locations locations).bind
        ((restores_string.list p.sources.names sources).bind
          ((restores_function.list.nameMap p.functions functions).bind
            ((restores_size.nameMap p.labels labels).last rfl)))))

/-- The bytes of a program delimit themselves: whatever stands behind them, loading finds the
program or, if another release has compiled it, that release; and as long as one of them is missing,
loading hits the end. -/
theorem toBytes_delimits_itself (p : Program) (fits : Fits p.sizes) :
    (∀ rest, ofBytes (p.toBytes ++ rest) =
      if p.version = .current then .ok p else .error (.versionMismatch p.version)) ∧
    ∀ front, front <+: p.toBytes → front ≠ p.toBytes →
      ofBytes front = .error (.decode .endOfData) := by
  have program := takes_program p fits
  constructor
  · intro rest
    rw [ofBytes, toBytes, program.whole rest]
  · intro front starts shorter
    rw [ofBytes, program.cut front starts shorter]

/-- A program with a bit of everything: a far jump, a negative zero, a name beyond ASCII, two
overloads and a label. -/
def sample : Program where
  version := .current
  instructions :=
    [.jump (.address 300), .pushNumber ⟨0x8000000000000000⟩, .callStatic "Größe" "new" 1, .discard,
      .pushArgument 0, .binaryAnd .unresolved, .unaryOp .not, .binaryOp .gte, .ret]
  locations := [⟨0, 1, 1⟩, ⟨1, 70000, 12⟩]
  sources := ⟨["main", "<script>"]⟩
  functions := NameMap.empty.insert "f"
    [⟨"f", [], 1, 4⟩, ⟨"f", ["a", "b"], 129, 9223372036854775808⟩]
  labels := (NameMap.empty.insert "again" 3).insert "" 8

/-- Behind the bytes of the sample, and of the same program from another release, stands one that is
no text and no number. -/
theorem toBytes_delimits_itself_sample :
    Fits sample.sizes ∧
    ofBytes (sample.toBytes ++ [255]) = .ok sample ∧
    ofBytes ({ sample with version := ⟨0, 2, 400⟩ }.toBytes ++ [255]) =
      .error (.versionMismatch ⟨0, 2, 400⟩) ∧
    ∀ front, front <+: sample.toBytes → front ≠ sample.toBytes →
      ofBytes front = .error (.decode .endOfData) :=
  have fits : Fits sample.sizes := by decide
  ⟨fits, (toBytes_delimits_itself sample fits).1 [255],
    (toBytes_delimits_itself { sample with version := ⟨0, 2, 400⟩ } fits).1 [255],
    (toBytes_delimits_itself sample fits).2⟩

end Program

end HostScript
