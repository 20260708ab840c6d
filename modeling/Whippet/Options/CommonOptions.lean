import Mathlib.Data.List.Basic
import Whippet.Library.Numerals
import Whippet.Library.Rounding

/-!
The options that all collectors have, and their values as strings (`gc-options.c`).

The collectors' own `gc_option_from_string` and `gc_options_parse_and_set` call the functions here.
Strings are lists of characters without the final null character. Arithmetic on `long` wraps around.

Owns: the options with their ranges, setting them, parsing values, and when the integer that a value
denotes is what is stored. Does not own: `strtod`, and lists of options.
-/

namespace Whippet.Options

open Numerals

/-- The options of `FOR_EACH_COMMON_GC_OPTION`. -/
inductive OptionId where
  | heapSizePolicy
  | heapSize
  | maximumHeapSize
  | heapDoubleThreshold
  | heapExpansiveness
  | parallelism
  deriving DecidableEq, Repr

def GC_HEAP_SIZE_FIXED : ℕ := 0
def GC_HEAP_SIZE_GROWABLE : ℕ := 1
def GC_HEAP_SIZE_ADAPTIVE : ℕ := 2

/-- `(size_t) -1`. -/
def SIZE_MAX : ℕ := 2 ^ 64 - 1

namespace OptionId

def minimum : OptionId → ℕ
  | heapSizePolicy => GC_HEAP_SIZE_FIXED
  | parallelism => 1
  | heapSize => 0
  | heapDoubleThreshold => 1
  | maximumHeapSize => 0
  | heapExpansiveness => 0

def maximum : OptionId → ℕ
  | heapSizePolicy => GC_HEAP_SIZE_ADAPTIVE
  | parallelism => 64
  | heapSize => SIZE_MAX
  | heapDoubleThreshold => SIZE_MAX
  | maximumHeapSize => SIZE_MAX
  | heapExpansiveness => 50

def repr : OptionId → List Char
  | heapSizePolicy => "heap-size-policy".toList
  | parallelism => "parallelism".toList
  | heapSize => "heap-size".toList
  | heapDoubleThreshold => "heap-double-threshold".toList
  | maximumHeapSize => "maximum-heap-size".toList
  | heapExpansiveness => "heap-expansiveness".toList

end OptionId

/-- `gc_common_option_from_string`, which returns -1 for a string that names no option. -/
def optionFromString (str : List Char) : Option OptionId :=
  [.heapSizePolicy, .parallelism, .heapSize, .heapDoubleThreshold, .maximumHeapSize,
    .heapExpansiveness].find? fun option : OptionId => str = option.repr

/-- `struct gc_common_options`. The threshold is a `double`, but only sizes are assigned to it. -/
structure CommonOptions (Double : Type) where
  heapSizePolicy : ℤ
  heapSize : ℕ
  maximumHeapSize : ℕ
  heapDoubleThreshold : ℕ
  heapExpansiveness : Double
  parallelism : ℤ

/-- What is used of `double`: `strtod (arg, &end)` with `end`, and whether a value is equal to
`clamp_double (value, 0.0, 50.0)`. -/
structure DoubleParser (Double : Type) where
  strtod : List Char → Double × List Char
  isClamped : Double → Bool

/-! ## Setting an option -/

/-- `clamp_int` and `clamp_size`. -/
def clamp {Value : Type} [LinearOrder Value] (value low high : Value) : Value :=
  if value < low then low else if high < value then high else value

/-- A size as a `double`. -/
def sizeToDouble (size : ℕ) : ℕ := Rounding.toPrecision 53 size

/-- `default_parallelism`, for the number of processors. -/
def defaultParallelism (processors : ℤ) : ℤ := clamp processors 1 8

/-- `gc_init_common_options`, with `1.0` and the number of processors. -/
def CommonOptions.init {Double : Type} (one : Double) (processors : ℤ) : CommonOptions Double :=
  { heapSizePolicy := GC_HEAP_SIZE_FIXED
    heapSize := 6 * 1024 * 1024
    maximumHeapSize := 0
    heapDoubleThreshold := sizeToDouble (60 * 1024 * 1024)
    heapExpansiveness := one
    parallelism := defaultParallelism processors }

namespace CommonOptions

variable {Double : Type} (options : CommonOptions Double)

/-- `SET_OPTION` in a setter: what is stored if the value is in the range. -/
def setWithin {Value : Type} [LinearOrder Value] (value low high : Value)
    (stored : CommonOptions Double) : Bool × CommonOptions Double :=
  if value ≠ clamp value low high then (false, options) else (true, stored)

/-- `gc_common_options_set_int`. -/
def setInt (option : OptionId) (value : ℤ) : Bool × CommonOptions Double :=
  match option with
  | .heapSizePolicy =>
      options.setWithin value option.minimum option.maximum { options with heapSizePolicy := value }
  | .parallelism =>
      options.setWithin value option.minimum option.maximum { options with parallelism := value }
  | _ => (false, options)

/-- `gc_common_options_set_size`. -/
def setSize (option : OptionId) (value : ℕ) : Bool × CommonOptions Double :=
  match option with
  | .heapSize =>
      options.setWithin value option.minimum option.maximum { options with heapSize := value }
  | .heapDoubleThreshold =>
      options.setWithin value option.minimum option.maximum
        { options with heapDoubleThreshold := sizeToDouble value }
  | .maximumHeapSize =>
      options.setWithin value option.minimum option.maximum
        { options with maximumHeapSize := value }
  | _ => (false, options)

/-- `gc_common_options_set_double`. -/
def setDouble (double : DoubleParser Double) (option : OptionId) (value : Double) :
    Bool × CommonOptions Double :=
  match option with
  | .heapExpansiveness =>
      if double.isClamped value then (true, { options with heapExpansiveness := value })
      else (false, options)
  | _ => (false, options)

end CommonOptions

/-! ## Parsing a value -/

/-- A product of type `long`. -/
def mulLong (left right : ℤ) : ℤ := Int.bmod (left * right) (2 ^ 64)

/-- The conversion from `long` to `size_t`. -/
def longToSize (value : ℤ) : ℕ := (value % 2 ^ 64).toNat

/-- The conversion from `long` to `int`. -/
def longToInt (value : ℤ) : ℤ := Int.bmod value (2 ^ 32)

/-- The number with the suffix multiplied in, and what follows the suffix. -/
def scale (i : ℤ) (rest : List Char) : ℤ × List Char :=
  match rest with
  | [] => (i, [])
  | delim :: after =>
      if delim = 'k' ∨ delim = 'K' then (mulLong i 1024, after)
      else if delim = 'm' ∨ delim = 'M' then (mulLong i (1024 * 1024), after)
      else if delim = 'g' ∨ delim = 'G' then (mulLong i (1024 * 1024 * 1024), after)
      else if delim = 't' ∨ delim = 'T' then (mulLong i (1024 * 1024 * 1024 * 1024), after)
      else (i, rest)

/-- `parse_size`. -/
def parseSize (arg : List Char) : Option ℕ :=
  let (i, rest) := strtol arg
  if i < 0 ∨ i = LONG_MAX then none
  else if rest = arg then none
  else
    let (i, rest) := scale i rest
    if rest ≠ [] then none else some (longToSize i)

/-- `parse_int`. -/
def parseInt (arg : List Char) : Option ℤ :=
  let (i, rest) := strtol arg
  if i = LONG_MIN ∨ i = LONG_MAX ∨ rest = arg ∨ rest ≠ [] then none
  else some (longToInt i)

/-- `parse_heap_size_policy`. -/
def parseHeapSizePolicy (arg : List Char) : Option ℤ :=
  if arg = "fixed".toList then some GC_HEAP_SIZE_FIXED
  else if arg = "growable".toList then some GC_HEAP_SIZE_GROWABLE
  else if arg = "adaptive".toList then some GC_HEAP_SIZE_ADAPTIVE
  else parseInt arg

/-- `parse_double`. -/
def parseDouble {Double : Type} (double : DoubleParser Double) (arg : List Char) : Option Double :=
  let (value, rest) := double.strtod arg
  if rest = arg ∨ rest ≠ [] then none else some value

namespace CommonOptions

variable {Double : Type} (options : CommonOptions Double)

/-- `SET_OPTION` in `gc_common_options_parse_and_set`. -/
def setParsed {Value : Type} (parsed : Option Value)
    (set : Value → Bool × CommonOptions Double) : Bool × CommonOptions Double :=
  match parsed with
  | none => (false, options)
  | some value => set value

/-- `gc_common_options_parse_and_set`. -/
def parseAndSet (double : DoubleParser Double) (option : OptionId) (value : List Char) :
    Bool × CommonOptions Double :=
  match option with
  | .heapSizePolicy => options.setParsed (parseHeapSizePolicy value) (options.setInt option)
  | .parallelism => options.setParsed (parseInt value) (options.setInt option)
  | .heapSize => options.setParsed (parseSize value) (options.setSize option)
  | .heapDoubleThreshold => options.setParsed (parseSize value) (options.setSize option)
  | .maximumHeapSize => options.setParsed (parseSize value) (options.setSize option)
  | .heapExpansiveness =>
      options.setParsed (parseDouble double value) (options.setDouble double option)

end CommonOptions

/-! ## What a value denotes -/

/-- The factor that a suffix stands for. -/
def multiplier (suffix : Char) : Option ℤ :=
  if suffix = 'k' ∨ suffix = 'K' then some (2 ^ 10)
  else if suffix = 'm' ∨ suffix = 'M' then some (2 ^ 20)
  else if suffix = 'g' ∨ suffix = 'G' then some (2 ^ 30)
  else if suffix = 't' ∨ suffix = 'T' then some (2 ^ 40)
  else none

/-- The factor that what follows a numeral stands for. -/
def suffixFactor : List Char → Option ℤ
  | [] => some 1
  | [suffix] => multiplier suffix
  | _ => none

/-- The integer and the factor of a size. -/
def sizeParts (arg : List Char) : Option (ℤ × ℤ) :=
  match numeral arg with
  | none => none
  | some (number, rest) => (suffixFactor rest).map fun factor => (number, factor)

/-- The integer of a numeral without suffix. -/
def intPart (arg : List Char) : Option ℤ :=
  match numeral arg with
  | some (number, []) => some number
  | _ => none

/-- The integer that the value of an option denotes. -/
def denotes (option : OptionId) (value : List Char) : Option ℤ :=
  match option with
  | .heapSizePolicy =>
      if value = "fixed".toList then some GC_HEAP_SIZE_FIXED
      else if value = "growable".toList then some GC_HEAP_SIZE_GROWABLE
      else if value = "adaptive".toList then some GC_HEAP_SIZE_ADAPTIVE
      else intPart value
  | .parallelism => intPart value
  | .heapExpansiveness => none
  | _ => (sizeParts value).map fun parts => parts.1 * parts.2

/-- The integer that an option has as its value. -/
def CommonOptions.stored {Double : Type} (options : CommonOptions Double) : OptionId → Option ℤ
  | .heapSizePolicy => some options.heapSizePolicy
  | .heapSize => some options.heapSize
  | .maximumHeapSize => some options.maximumHeapSize
  | .heapDoubleThreshold => some options.heapDoubleThreshold
  | .heapExpansiveness => none
  | .parallelism => some options.parallelism

/-- An option that is set has the integer that the value denotes, which is in its range; otherwise
all options are as they were. -/
structure StoresDenoted {Double : Type} (options : CommonOptions Double) (option : OptionId)
    (value : List Char) (result : Bool × CommonOptions Double) : Prop where
  accepted : result.1 = true → ∃ number : ℤ, denotes option value = some number ∧
    result.2.stored option = some number ∧ option.minimum ≤ number ∧ number ≤ option.maximum
  rejected : result.1 = false → result.2 = options

/-- An integer that `parse_int` takes is an `int`, or is not in the range after it wrapped
around. -/
def IntFits (option : OptionId) (value : List Char) : Prop :=
  ∀ number, intPart value = some number → LONG_MIN < number → number < LONG_MAX →
    option.minimum ≤ longToInt number → longToInt number ≤ option.maximum →
      -2 ^ 31 ≤ number ∧ number < 2 ^ 31

/-- A product that `parse_size` takes is a `size_t` and, as the threshold, a `double`, or is not in
the range after it wrapped around. -/
def SizeFits (option : OptionId) (value : List Char) : Prop :=
  ∀ number factor, sizeParts value = some (number, factor) → 0 ≤ number → number < LONG_MAX →
    option.minimum ≤ (number * factor) % 2 ^ 64 →
      number * factor < 2 ^ 64 ∧ (option = .heapDoubleThreshold →
        sizeToDouble (number * factor).toNat = number * factor)

/-- What the value denotes can be stored, if it gets as far as that. -/
def Fits (option : OptionId) (value : List Char) : Prop :=
  match option with
  | .heapSizePolicy => IntFits option value
  | .parallelism => IntFits option value
  | _ => SizeFits option value

/-! ## What is parsed -/

theorem longToInt_range (value : ℤ) : -2 ^ 31 ≤ longToInt value ∧ longToInt value < 2 ^ 31 :=
  ⟨Int.le_bmod (by decide), Int.bmod_lt (by decide)⟩

theorem longToInt_of_range {value : ℤ} (atLeast : -2 ^ 31 ≤ value) (below : value < 2 ^ 31) :
    longToInt value = value :=
  Int.bmod_eq_of_le atLeast below

theorem longToSize_mulLong (left right : ℤ) :
    longToSize (mulLong left right) = ((left * right) % 2 ^ 64).toNat := by
  rw [longToSize, mulLong]
  congr 1
  exact Int.bmod_emod

theorem scale_iff (i : ℤ) (rest : List Char) (size : ℕ) :
    (scale i rest).2 = [] ∧ longToSize (scale i rest).1 = size ↔
      ∃ factor, suffixFactor rest = some factor ∧ ((i * factor) % 2 ^ 64).toNat = size := by
  match rest with
  | [] => simp [scale, suffixFactor, longToSize]
  | [delim] =>
      rw [scale, suffixFactor, multiplier]
      by_cases isKilo : delim = 'k' ∨ delim = 'K'
      · simp [if_pos isKilo, longToSize_mulLong]
      · by_cases isMega : delim = 'm' ∨ delim = 'M'
        · simp [if_neg isKilo, if_pos isMega, longToSize_mulLong]
        · by_cases isGiga : delim = 'g' ∨ delim = 'G'
          · simp [if_neg isKilo, if_neg isMega, if_pos isGiga, longToSize_mulLong]
          · by_cases isTera : delim = 't' ∨ delim = 'T'
            · simp [if_neg isKilo, if_neg isMega, if_neg isGiga, if_pos isTera, longToSize_mulLong]
            · simp [if_neg isKilo, if_neg isMega, if_neg isGiga, if_neg isTera]
  | delim :: next :: rest =>
      have isLonger : (scale i (delim :: next :: rest)).2 ≠ [] := by
        rw [scale]
        split_ifs
        all_goals exact List.cons_ne_nil _ _
      simp [isLonger, suffixFactor]

theorem strtol_of_numeral {arg rest : List Char} {number : ℤ}
    (isNumeral : numeral arg = some (number, rest)) :
    strtol arg = (max LONG_MIN (min LONG_MAX number), rest) := by
  rw [strtol, isNumeral]

theorem strtol_of_none {arg : List Char} (noNumeral : numeral arg = none) :
    strtol arg = (0, arg) := by
  rw [strtol, noNumeral]

theorem rest_ne {arg rest : List Char} {number : ℤ}
    (isNumeral : numeral arg = some (number, rest)) :
    rest ≠ arg := by
  rintro rfl
  exact Nat.lt_irrefl _ (length_numeral_lt isNumeral)

/-- What `parse_size` stores. -/
theorem parseSize_eq_some_iff (arg : List Char) (size : ℕ) : parseSize arg = some size ↔
    ∃ number factor, sizeParts arg = some (number, factor) ∧ 0 ≤ number ∧ number < LONG_MAX ∧
      ((number * factor) % 2 ^ 64).toNat = size := by
  cases isNumeral : numeral arg with
  | none => simp [parseSize, strtol_of_none isNumeral, sizeParts, isNumeral, LONG_MAX]
  | some found =>
      obtain ⟨number, rest⟩ := found
      rw [parseSize, strtol_of_numeral isNumeral]
      dsimp only
      by_cases inRange : 0 ≤ number ∧ number < LONG_MAX
      · have isSame : max LONG_MIN (min LONG_MAX number) = number := by
          simp only [LONG_MIN, LONG_MAX] at inRange ⊢
          omega
        have isParsed : (if (scale number rest).2 ≠ [] then none
            else some (longToSize (scale number rest).1)) = some size ↔
              (scale number rest).2 = [] ∧ longToSize (scale number rest).1 = size := by
          by_cases isEnd : (scale number rest).2 = []
          · simp [isEnd]
          · simp [isEnd]
        rw [isSame, if_neg (by omega), if_neg (rest_ne isNumeral), isParsed, scale_iff]
        simp [sizeParts, isNumeral, inRange]
      · have isOutside : max LONG_MIN (min LONG_MAX number) < 0 ∨
            max LONG_MIN (min LONG_MAX number) = LONG_MAX := by
          simp only [LONG_MIN, LONG_MAX] at inRange ⊢
          omega
        rw [if_pos isOutside]
        simp only [reduceCtorEq, sizeParts, isNumeral, Option.map_eq_some_iff, Prod.mk.injEq,
          false_iff, not_exists]
        rintro _ factor ⟨⟨_, -, rfl, rfl⟩, atLeast, below, -⟩
        exact inRange ⟨atLeast, below⟩

/-- What `parse_int` stores. -/
theorem parseInt_eq_some_iff (arg : List Char) (value : ℤ) : parseInt arg = some value ↔
    ∃ number, intPart arg = some number ∧ LONG_MIN < number ∧ number < LONG_MAX ∧
      longToInt number = value := by
  cases isNumeral : numeral arg with
  | none => simp [parseInt, strtol_of_none isNumeral, intPart, isNumeral]
  | some found =>
      obtain ⟨number, rest⟩ := found
      rw [parseInt, strtol_of_numeral isNumeral]
      dsimp only
      by_cases isWhole : rest = []
      · subst isWhole
        by_cases inRange : LONG_MIN < number ∧ number < LONG_MAX
        · have isSame : max LONG_MIN (min LONG_MAX number) = number := by
            simp only [LONG_MIN, LONG_MAX] at inRange ⊢
            omega
          have isTaken :
              ¬(number = LONG_MIN ∨ number = LONG_MAX ∨ [] = arg ∨ ([] : List Char) ≠ []) := by
            rintro (isMin | isMax | isArg | notNil)
            · omega
            · omega
            · exact rest_ne isNumeral isArg
            · exact notNil rfl
          rw [isSame, if_neg isTaken]
          simp [intPart, isNumeral, inRange]
        · have isOutside : max LONG_MIN (min LONG_MAX number) = LONG_MIN ∨
              max LONG_MIN (min LONG_MAX number) = LONG_MAX := by
            simp only [LONG_MIN, LONG_MAX] at inRange ⊢
            omega
          rw [if_pos (isOutside.imp_right .inl)]
          simp only [reduceCtorEq, intPart, isNumeral, Option.some.injEq, false_iff, not_exists]
          rintro _ ⟨rfl, atLeast, below, -⟩
          exact inRange ⟨atLeast, below⟩
      · rw [if_pos (.inr (.inr (.inr isWhole)))]
        simp [intPart, isNumeral, isWhole]

/-! ## What is stored -/

theorem eq_clamp_iff {Value : Type} [LinearOrder Value] (value low high : Value) :
    value = clamp value low high ↔ low ≤ value ∧ value ≤ high := by
  rw [clamp]
  split_ifs with below above
  · exact ⟨fun isLow => absurd (isLow ▸ below) (lt_irrefl _),
      fun inRange => absurd below inRange.1.not_gt⟩
  · exact ⟨fun isHigh => absurd (isHigh ▸ above) (lt_irrefl _),
      fun inRange => absurd above inRange.2.not_gt⟩
  · exact ⟨fun _ => ⟨not_lt.mp below, not_lt.mp above⟩, fun _ => rfl⟩

variable {Double : Type} {options : CommonOptions Double} {option : OptionId} {value : List Char}

/-- The defaults are in the ranges that the setters check. -/
theorem init_in_range (one : Double) (processors : ℤ) {number : ℤ}
    (stored : (CommonOptions.init one processors).stored option = some number) :
    option.minimum ≤ number ∧ number ≤ option.maximum := by
  cases option with
  | heapExpansiveness => cases stored
  | parallelism =>
      obtain rfl := Option.some.inj stored
      dsimp only [CommonOptions.init]
      rw [defaultParallelism, clamp, OptionId.minimum, OptionId.maximum]
      split_ifs
      · decide
      · decide
      · omega
  | _ =>
      obtain rfl := Option.some.inj stored
      dsimp only [CommonOptions.init]
      exact ⟨by decide, by decide⟩

/-- What `SET_OPTION` returns. -/
theorem setWithin_eq {Value : Type} [LinearOrder Value] (options : CommonOptions Double)
    (value low high : Value) (stored : CommonOptions Double) :
    options.setWithin value low high stored =
      if low ≤ value ∧ value ≤ high then (true, stored) else (false, options) := by
  rw [CommonOptions.setWithin]
  by_cases inRange : low ≤ value ∧ value ≤ high
  · rw [if_pos inRange, if_neg (not_not.mpr ((eq_clamp_iff value low high).mpr inRange))]
  · rw [if_neg inRange,
      if_pos (fun isClamped => inRange ((eq_clamp_iff value low high).mp isClamped))]

theorem setInt_spec (isInt : option = .heapSizePolicy ∨ option = .parallelism) (number : ℤ) :
    ∃ after : CommonOptions Double, after.stored option = some number ∧
      options.setInt option number =
        if (option.minimum : ℤ) ≤ number ∧ number ≤ option.maximum then (true, after)
        else (false, options) := by
  rcases isInt with rfl | rfl
  · exact ⟨_, rfl, setWithin_eq ..⟩
  · exact ⟨_, rfl, setWithin_eq ..⟩

/-- The value that an option has after a size was assigned to it. -/
def assigned (option : OptionId) (size : ℕ) : ℕ :=
  if option = .heapDoubleThreshold then sizeToDouble size else size

theorem setSize_spec (isSize : option = .heapSize ∨ option = .heapDoubleThreshold ∨
    option = .maximumHeapSize) (size : ℕ) :
    ∃ after : CommonOptions Double, after.stored option = some (assigned option size : ℤ) ∧
      options.setSize option size =
        if option.minimum ≤ size ∧ size ≤ option.maximum then (true, after)
        else (false, options) := by
  rcases isSize with rfl | rfl | rfl
  · exact ⟨_, rfl, setWithin_eq ..⟩
  · exact ⟨_, rfl, setWithin_eq ..⟩
  · exact ⟨_, rfl, setWithin_eq ..⟩

theorem storesDenoted_of_rejected : StoresDenoted options option value (false, options) :=
  ⟨nofun, fun _ => rfl⟩

/-- An integer that is denoted is stored if it is in range. -/
theorem storesDenoted_setInt (isInt : option = .heapSizePolicy ∨ option = .parallelism) {number : ℤ}
    (isDenoted : denotes option value = some number) :
    StoresDenoted options option value (options.setInt option number) := by
  obtain ⟨after, stored, isSet⟩ := @setInt_spec Double options option isInt number
  rw [isSet]
  split
  next inRange => exact ⟨fun _ => ⟨number, isDenoted, stored, inRange⟩, nofun⟩
  next => exact storesDenoted_of_rejected

/-- What `parse_int` takes is stored as it is if it is an `int`, and only then. -/
theorem storesDenoted_parseInt_iff (isInt : option = .heapSizePolicy ∨ option = .parallelism)
    (isDenoted : denotes option value = intPart value) :
    StoresDenoted options option value
      (options.setParsed (parseInt value) (options.setInt option)) ↔ IntFits option value := by
  constructor
  · intro stores number isNumber above below atLeast atMost
    have parsed := (parseInt_eq_some_iff value _).mpr ⟨number, isNumber, above, below, rfl⟩
    obtain ⟨after, stored, isSet⟩ := @setInt_spec Double options option isInt (longToInt number)
    rw [parsed, CommonOptions.setParsed, isSet, if_pos ⟨atLeast, atMost⟩] at stores
    obtain ⟨denoted, isDenotedToo, storedToo, -⟩ := stores.accepted rfl
    rw [isDenoted, isNumber, Option.some.injEq] at isDenotedToo
    rw [stored, Option.some.injEq, ← isDenotedToo] at storedToo
    rw [← storedToo]
    exact longToInt_range number
  · intro fits
    cases parsed : parseInt value with
    | none => exact storesDenoted_of_rejected
    | some result =>
        obtain ⟨number, isNumber, above, below, rfl⟩ := (parseInt_eq_some_iff value _).mp parsed
        rw [CommonOptions.setParsed]
        by_cases inRange : (option.minimum : ℤ) ≤ longToInt number ∧
          longToInt number ≤ option.maximum
        · have isInt32 := fits number isNumber above below inRange.1 inRange.2
          rw [longToInt_of_range isInt32.1 isInt32.2]
          exact storesDenoted_setInt isInt (isDenoted.trans isNumber)
        · obtain ⟨after, -, isSet⟩ := @setInt_spec Double options option isInt (longToInt number)
          rw [isSet, if_neg inRange]
          exact storesDenoted_of_rejected

theorem suffixFactor_pos {rest : List Char} {factor : ℤ}
    (isFactor : suffixFactor rest = some factor) :
    0 < factor := by
  unfold suffixFactor multiplier at isFactor
  split at isFactor
  next =>
    have isOne := Option.some.inj isFactor
    omega
  next =>
    split_ifs at isFactor
    all_goals
      have positive := Option.some.inj isFactor
      omega
  next => cases isFactor

theorem sizeParts_factor_pos {arg : List Char} {number factor : ℤ}
    (isParts : sizeParts arg = some (number, factor)) : 0 < factor := by
  rw [sizeParts] at isParts
  split at isParts
  next => cases isParts
  next rest _ =>
    obtain ⟨found, isFactor, isPair⟩ := Option.map_eq_some_iff.mp isParts
    obtain ⟨-, rfl⟩ := Prod.mk.inj isPair
    exact suffixFactor_pos isFactor

/-- A size less than `2 ^ 64` is at most that as a `double`. -/
theorem sizeToDouble_le {size : ℕ} (below : size < 2 ^ 64) : sizeToDouble size ≤ 2 ^ 64 := by
  apply (Rounding.toPrecision_le_two_pow (by decide) size).trans
  apply Nat.pow_le_pow_right (by decide)
  rcases Nat.eq_zero_or_pos size with rfl | positive
  · decide
  · exact Nat.succ_le_of_lt ((Nat.log2_lt positive.ne').mpr below)

/-- A product that wrapped around is not what is stored, not even as a `double`. -/
theorem assigned_eq_iff (option : OptionId) {product : ℤ} (atLeast : 0 ≤ product) :
    (assigned option (product % 2 ^ 64).toNat : ℤ) = product ↔
      product < 2 ^ 64 ∧
        (option = .heapDoubleThreshold → sizeToDouble product.toNat = product) := by
  by_cases below : product < 2 ^ 64
  · rw [Int.emod_eq_of_lt atLeast below, assigned]
    by_cases isThreshold : option = .heapDoubleThreshold
    · rw [if_pos isThreshold]
      exact ⟨fun isStored => ⟨below, fun _ => isStored⟩, fun fits => fits.2 isThreshold⟩
    · rw [if_neg isThreshold]
      exact ⟨fun _ => ⟨below, fun contra => absurd contra isThreshold⟩,
        fun _ => Int.toNat_of_nonneg atLeast⟩
  · refine iff_of_false ?_ fun fits => below fits.1
    intro isStored
    have sizeLt : (product % 2 ^ 64).toNat < 2 ^ 64 := by omega
    have assignedLe : assigned option (product % 2 ^ 64).toNat ≤ 2 ^ 64 := by
      rw [assigned]
      split
      · exact sizeToDouble_le sizeLt
      · exact sizeLt.le
    have isPower : product = 2 ^ 64 := by omega
    rw [isPower, assigned] at isStored
    have isZero : sizeToDouble ((2 ^ 64 : ℤ) % 2 ^ 64).toNat = 0 := Rounding.toPrecision_zero 53
    rw [isZero] at isStored
    split at isStored
    · omega
    · omega

/-- What `parse_size` takes is stored as it is if the product is a `size_t` that the type of the
option can hold, and only then. -/
theorem storesDenoted_parseSize_iff (isSize : option = .heapSize ∨ option = .heapDoubleThreshold ∨
    option = .maximumHeapSize) :
    StoresDenoted options option value
      (options.setParsed (parseSize value) (options.setSize option)) ↔ SizeFits option value := by
  have isMaximum : option.maximum = SIZE_MAX := by
    rcases isSize with rfl | rfl | rfl
    all_goals rfl
  have isDenoted : denotes option value = (sizeParts value).map fun parts => parts.1 * parts.2 := by
    rcases isSize with rfl | rfl | rfl
    all_goals rfl
  constructor
  · intro stores number factor isParts atLeast below inRange
    have product : 0 ≤ number * factor :=
      Int.mul_nonneg atLeast (sizeParts_factor_pos isParts).le
    have parsed :=
      (parseSize_eq_some_iff value _).mpr ⟨number, factor, isParts, atLeast, below, rfl⟩
    obtain ⟨after, stored, isSet⟩ :=
      @setSize_spec Double options option isSize ((number * factor) % 2 ^ 64).toNat
    rw [parsed, CommonOptions.setParsed, isSet, isMaximum, SIZE_MAX, if_pos (by omega)] at stores
    obtain ⟨denoted, isDenotedToo, storedToo, -⟩ := stores.accepted rfl
    rw [isDenoted, isParts, Option.map_some, Option.some.injEq] at isDenotedToo
    rw [stored, Option.some.injEq, ← isDenotedToo] at storedToo
    exact (assigned_eq_iff option product).mp storedToo
  · intro fits
    cases parsed : parseSize value with
    | none => exact storesDenoted_of_rejected
    | some size =>
        obtain ⟨number, factor, isParts, atLeast, below, rfl⟩ :=
          (parseSize_eq_some_iff value _).mp parsed
        have product : 0 ≤ number * factor :=
          Int.mul_nonneg atLeast (sizeParts_factor_pos isParts).le
        obtain ⟨after, stored, isSet⟩ :=
          @setSize_spec Double options option isSize ((number * factor) % 2 ^ 64).toNat
        rw [CommonOptions.setParsed, isSet]
        split
        next inRange =>
          have fitsType := fits number factor isParts atLeast below (by omega)
          refine ⟨fun _ => ⟨number * factor, ?_, ?_, ?_, ?_⟩, nofun⟩
          · rw [isDenoted, isParts, Option.map_some]
          · rw [stored, (assigned_eq_iff option product).mpr fitsType]
          · omega
          · rw [isMaximum, SIZE_MAX]
            omega
        next => exact storesDenoted_of_rejected

/-- `gc_common_options_parse_and_set` stores what the value of an integer or size option denotes if
and only if that fits. -/
theorem parseAndSet_iff (double : DoubleParser Double) (options : CommonOptions Double)
    (value : List Char) (isNumeric : option ≠ .heapExpansiveness) :
    StoresDenoted options option value (options.parseAndSet double option value) ↔
      Fits option value := by
  cases option with
  | heapExpansiveness => exact absurd rfl isNumeric
  | heapSize => exact storesDenoted_parseSize_iff (.inl rfl)
  | heapDoubleThreshold => exact storesDenoted_parseSize_iff (.inr (.inl rfl))
  | maximumHeapSize => exact storesDenoted_parseSize_iff (.inr (.inr rfl))
  | parallelism => exact storesDenoted_parseInt_iff (.inr rfl) rfl
  | heapSizePolicy =>
      have isInt : OptionId.heapSizePolicy = .heapSizePolicy ∨
        OptionId.heapSizePolicy = .parallelism := .inl rfl
      rw [CommonOptions.parseAndSet, parseHeapSizePolicy]
      by_cases isFixed : value = "fixed".toList
      · subst isFixed
        exact iff_of_true (storesDenoted_setInt isInt rfl) (fun _ isNumber => nomatch isNumber)
      · by_cases isGrowable : value = "growable".toList
        · subst isGrowable
          exact iff_of_true (storesDenoted_setInt isInt rfl) (fun _ isNumber => nomatch isNumber)
        · by_cases isAdaptive : value = "adaptive".toList
          · subst isAdaptive
            exact iff_of_true (storesDenoted_setInt isInt rfl) (fun _ isNumber => nomatch isNumber)
          · rw [if_neg isFixed, if_neg isGrowable, if_neg isAdaptive]
            apply storesDenoted_parseInt_iff isInt
            rw [denotes, if_neg isFixed, if_neg isGrowable, if_neg isAdaptive]

/-- A heap of 64 megabytes. -/
theorem parseAndSet_iff_64m : StoresDenoted (.init () 4) .heapSize "64m".toList
    ((CommonOptions.init () 4).parseAndSet ⟨fun arg => ((), arg), fun _ => true⟩ .heapSize
      "64m".toList) := by
  refine (parseAndSet_iff ⟨fun arg => ((), arg), fun _ => true⟩ (.init () 4) "64m".toList
    (by decide)).mpr ?_
  intro number factor isParts _ _ _
  obtain ⟨rfl, rfl⟩ : 64 = number ∧ 2 ^ 20 = factor := Prod.mk.inj (Option.some.inj isParts)
  exact ⟨by decide, nofun⟩

/-- `2 ^ 32 + 1` threads are one thread. -/
theorem parseAndSet_fails :
    ¬∀ (options : CommonOptions Unit) (double : DoubleParser Unit) (option : OptionId)
      (value : List Char), option ≠ .heapExpansiveness →
        StoresDenoted options option value (options.parseAndSet double option value) := by
  intro holds
  obtain ⟨number, isDenoted, isStored, -⟩ := (holds (.init () 4)
    ⟨fun arg => ((), arg), fun _ => true⟩ .parallelism "4294967297".toList (by decide)).accepted rfl
  have denoted : some number = some 4294967297 := isDenoted.symm.trans rfl
  have stored : some number = some 1 := isStored.symm.trans rfl
  rw [denoted] at stored
  exact absurd stored (by decide)

end Whippet.Options
