import Mathlib
import Whippet.Options.CommonOptions

/-!
Lists of options as strings (`gc_options_parse_and_set_many` in `gc-options.c`).

Owns: reading tokens, the loop that sets one option after the other, which strings are lists of
options, and when these are the strings that the loop takes. Does not own: single options.
-/

namespace Whippet.Options

/-- The character that ends a string. -/
def nul : Char := Char.ofNat 0

/-- A string, up to its end. -/
structure CString where
  chars : List Char
  noNul : nul ∉ chars

def isOption (char : Char) : Bool := char.isLower || char = '-'
def isOptionEnd (char : Char) : Bool := char = '='

def isValue (char : Char) : Bool :=
  char.isLower || char.isDigit || char = '-' || char = '+' || char = '.'

def isValueEnd (char : Char) : Bool := char = nul || char = ','

/-- `read_token`: the token, the character that ends it and what follows that. -/
def readToken (p : List Char) (isTok isEnd : Char → Bool) : Option (List Char × Char × List Char) :=
  let token := p.takeWhile isTok
  let rest := p.dropWhile isTok
  let delim := rest.headD nul
  if isEnd delim then some (token, delim, rest.tail) else none

section Loop

variable {Double : Type} (double : DoubleParser Double)

/-- The loop of `gc_options_parse_and_set_many`, with a number of turns. -/
def parseLoop : ℕ → CommonOptions Double → List Char → Option (Bool × CommonOptions Double)
  | 0, _, _ => none
  | turns + 1, options, cur =>
      match readToken cur isOption isOptionEnd with
      | none => some (false, options)
      | some (name, _, next) =>
          match optionFromString name with
          | none => some (false, options)
          | some option =>
              match readToken next isValue isValueEnd with
              | none => some (false, options)
              | some (value, delim, next) =>
                  match options.parseAndSet double option value with
                  | (false, options) => some (false, options)
                  | (true, options) =>
                      if delim = nul then some (true, options) else parseLoop turns options next

/-- `gc_options_parse_and_set_many`, with more turns than there are characters. -/
def parseAndSetMany (options : CommonOptions Double) (str : List Char) :
    Option (Bool × CommonOptions Double) :=
  if str = [] then some (true, options) else parseLoop double (str.length + 1) options str

/-! ## Lists of options -/

/-- A name and a value. -/
structure Item where
  name : List Char
  value : List Char

def Item.text (item : Item) : List Char := item.name ++ '=' :: item.value

/-- The items, with commas between them. -/
def joinItems : List Item → List Char
  | [] => []
  | [item] => item.text
  | item :: next :: rest => item.text ++ ',' :: joinItems (next :: rest)

/-- A character of a value. -/
def isValueChar (char : Char) : Bool :=
  char.isLower || char.isUpper || char.isDigit || char = '-' || char = '+' || char = '.'

/-- The options after the items are set from left to right, if all names are known and all values
are accepted. -/
def setItems : CommonOptions Double → List Item → Option (CommonOptions Double)
  | options, [] => some options
  | options, item :: rest => do
      let option ← optionFromString item.name
      match options.parseAndSet double option item.value with
      | (false, _) => none
      | (true, after) => setItems after rest

/-- The string is a list of items that can be set. -/
structure IsItemList (options : CommonOptions Double) (str : List Char) (items : List Item)
    (after : CommonOptions Double) : Prop where
  nonempty : items ≠ []
  isText : str = joinItems items
  values : ∀ item ∈ items, ∀ char ∈ item.value, isValueChar char = true
  isSet : setItems double options items = some after

/-- The loop ends, and it takes the empty string and the lists of items that can be set. -/
structure ParsesItems (options : CommonOptions Double) (str : List Char)
    (result : Option (Bool × CommonOptions Double)) : Prop where
  terminates : ∃ taken after, result = some (taken, after)
  accepts : ∀ after, result = some (true, after) ↔
    (str = [] ∧ after = options) ∨ ∃ items, IsItemList double options str items after

/-- If the string is a list of items that can be set, no value has an uppercase letter. -/
def LowercaseValues (options : CommonOptions Double) (str : List Char) : Prop :=
  ∀ items after, IsItemList double options str items after →
    ∀ item ∈ items, ∀ char ∈ item.value, char.isUpper = false

end Loop

/-! ## Tokens -/

variable {isTok isEnd : Char → Bool} {p token next : List Char} {delim : Char}

theorem readToken_spec (isRead : readToken p isTok isEnd = some (token, delim, next)) :
    (∀ char ∈ token, isTok char = true) ∧ isEnd delim = true ∧
      (p = token ++ delim :: next ∨ (delim = nul ∧ p = token ∧ next = [])) := by
  rw [readToken] at isRead
  split at isRead
  next ended =>
    obtain ⟨rfl, rfl, rfl⟩ : p.takeWhile isTok = token ∧ (p.dropWhile isTok).headD nul = delim ∧
        (p.dropWhile isTok).tail = next := by simpa using isRead
    refine ⟨fun char member => List.mem_takeWhile_imp member, ended, ?_⟩
    have split : p.takeWhile isTok ++ p.dropWhile isTok = p := List.takeWhile_append_dropWhile
    cases isRest : p.dropWhile isTok with
    | nil =>
        rw [isRest, List.append_nil] at split
        exact .inr ⟨rfl, split.symm, rfl⟩
    | cons first rest =>
        rw [isRest] at split
        exact .inl split.symm
  next => cases isRead

theorem takeWhile_token (token rest : List Char) (inClass : ∀ char ∈ token, isTok char = true)
    (stops : ∀ char ∈ rest.head?, isTok char = false) :
    (token ++ rest).takeWhile isTok = token ∧ (token ++ rest).dropWhile isTok = rest := by
  have takesNone : rest.takeWhile isTok = [] ∧ rest.dropWhile isTok = rest := by
    cases rest with
    | nil => exact ⟨rfl, rfl⟩
    | cons first rest =>
        have isOut := stops first rfl
        exact ⟨List.takeWhile_cons_of_neg (by simp [isOut]),
          List.dropWhile_cons_of_neg (by simp [isOut])⟩
  rw [List.takeWhile_append_of_pos inClass, List.dropWhile_append_of_pos inClass, takesNone.1,
    takesNone.2, List.append_nil]
  exact ⟨rfl, rfl⟩

/-- A token that ends at a character. -/
theorem readToken_append (inClass : ∀ char ∈ token, isTok char = true) (isOut : isTok delim = false)
    (ended : isEnd delim = true) :
    readToken (token ++ delim :: next) isTok isEnd = some (token, delim, next) := by
  obtain ⟨taken, dropped⟩ := takeWhile_token token (delim :: next) inClass (by simpa using isOut)
  rw [readToken, taken, dropped]
  exact if_pos ended

/-- A token that ends with the string. -/
theorem readToken_end (inClass : ∀ char ∈ token, isTok char = true) (ended : isEnd nul = true) :
    readToken token isTok isEnd = some (token, nul, []) := by
  obtain ⟨taken, dropped⟩ := takeWhile_token token [] inClass nofun
  rw [List.append_nil] at taken dropped
  rw [readToken, taken, dropped]
  exact if_pos ended

theorem isOption_of_optionFromString {name : List Char} {option : OptionId}
    (known : optionFromString name = some option) : ∀ char ∈ name, isOption char = true := by
  have isRepr : name = option.repr := by simpa using List.find?_some known
  rw [isRepr]
  apply List.all_eq_true.mp
  cases option
  all_goals rfl

theorem isOptionEnd_nul : isOptionEnd nul = false := by decide

/-- What follows a token that ends before the string is shorter. -/
theorem length_next_lt {name : List Char}
    (isRead : readToken p isOption isOptionEnd = some (name, delim, next)) :
    p = name ++ '=' :: next ∧ next.length < p.length := by
  obtain ⟨-, ended, isText | ⟨rfl, -, -⟩⟩ := readToken_spec isRead
  · obtain rfl : delim = '=' := by simpa [isOptionEnd] using ended
    refine ⟨isText, ?_⟩
    rw [isText, List.length_append, List.length_cons]
    omega
  · rw [isOptionEnd_nul] at ended
    cases ended

/-! ## The loop -/

section Loop

variable {Double : Type} {double : DoubleParser Double} {options after : CommonOptions Double}
variable {cur : List Char} {turns : ℕ}

/-- Every turn takes at least one character, so that the loop ends. -/
theorem parseLoop_terminates (enough : cur.length < turns) :
    ∃ taken after, parseLoop double turns options cur = some (taken, after) := by
  induction turns generalizing options cur with
  | zero => omega
  | succ turns inductionHypothesis =>
      rw [parseLoop]
      split
      next => exact ⟨_, _, rfl⟩
      next name ended next isName =>
        have shorter := (length_next_lt isName).2
        split
        next => exact ⟨_, _, rfl⟩
        next option known =>
          split
          next => exact ⟨_, _, rfl⟩
          next value delim rest isValueRead =>
            have restLe : rest.length ≤ next.length := by
              obtain ⟨-, -, isText | ⟨-, -, rfl⟩⟩ := readToken_spec isValueRead
              · rw [isText, List.length_append, List.length_cons]
                omega
              · exact Nat.zero_le _
            split
            next => exact ⟨_, _, rfl⟩
            next =>
              split
              next => exact ⟨_, _, rfl⟩
              next => exact inductionHypothesis (by omega)

/-- The items of a string, with the values that the loop reads. -/
structure IsTaken (double : DoubleParser Double) (options : CommonOptions Double) (str : List Char)
    (items : List Item) (after : CommonOptions Double) : Prop where
  nonempty : items ≠ []
  isText : str = joinItems items
  values : ∀ item ∈ items, ∀ char ∈ item.value, isValue char = true
  isSet : setItems double options items = some after

theorem setItems_cons {item : Item} {rest : List Item} {option : OptionId}
    {middle : CommonOptions Double} (known : optionFromString item.name = some option)
    (accepted : options.parseAndSet double option item.value = (true, middle)) :
    setItems double options (item :: rest) = setItems double middle rest := by
  rw [setItems, known, Option.bind_eq_bind, Option.bind_some, accepted]

theorem joinItems_cons (item : Item) {rest : List Item} (nonempty : rest ≠ []) :
    joinItems (item :: rest) = item.text ++ ',' :: joinItems rest := by
  cases rest with
  | nil => exact absurd rfl nonempty
  | cons next rest => rw [joinItems]

/-- What the loop takes is a list of items. -/
theorem exists_isTaken (noNul : nul ∉ cur)
    (taken : parseLoop double turns options cur = some (true, after)) :
    ∃ items, IsTaken double options cur items after := by
  induction turns generalizing options cur with
  | zero => cases taken
  | succ turns inductionHypothesis =>
      rw [parseLoop] at taken
      split at taken
      next => cases taken
      next name ended next isName =>
        obtain ⟨isCur, -⟩ := length_next_lt isName
        split at taken
        next => cases taken
        next option known =>
          split at taken
          next => cases taken
          next value delim rest isValueRead =>
            obtain ⟨inClass, endsValue, isNext⟩ := readToken_spec isValueRead
            split at taken
            next => cases taken
            next middle accepted =>
              have isItem : optionFromString (Item.mk name value).name = some option := known
              have isAccepted : options.parseAndSet double option (Item.mk name value).value =
                (true, middle) := accepted
              split at taken
              next isNul =>
                obtain ⟨-, rfl⟩ := Prod.mk.inj (Option.some.inj taken)
                have isLast : next = value := by
                  rcases isNext with isText | ⟨-, isText, -⟩
                  · apply absurd _ noNul
                    rw [isCur, isText, isNul]
                    simp
                  · exact isText
                refine ⟨[⟨name, value⟩], List.cons_ne_nil _ _, ?_, ?_, ?_⟩
                · rw [isCur, isLast]
                  rfl
                · rintro item member
                  rw [List.mem_singleton.mp member]
                  exact inClass
                · rw [setItems_cons isItem isAccepted]
                  rfl
              next notNul =>
                obtain rfl : delim = ',' := by simpa [isValueEnd, notNul] using endsValue
                have isText : next = value ++ ',' :: rest :=
                  isNext.resolve_right fun atEnd => notNul atEnd.1
                have noNulAfter : nul ∉ rest := by
                  intro member
                  apply noNul
                  rw [isCur, isText]
                  simp [member]
                obtain ⟨items, nonempty, isRest, values, isSet⟩ :=
                  inductionHypothesis noNulAfter taken
                refine ⟨⟨name, value⟩ :: items, List.cons_ne_nil _ _, ?_, ?_, ?_⟩
                · rw [joinItems_cons _ nonempty, isCur, isText, isRest, Item.text,
                    List.append_assoc, List.cons_append]
                · rintro item member
                  rcases List.mem_cons.mp member with rfl | inRest
                  · exact inClass
                  · exact values item inRest
                · rw [setItems_cons isItem isAccepted]
                  exact isSet

/-- A first item that can be set. -/
theorem exists_of_setItems_cons {item : Item} {rest : List Item}
    (isSet : setItems double options (item :: rest) = some after) :
    ∃ option middle, optionFromString item.name = some option ∧
      options.parseAndSet double option item.value = (true, middle) ∧
        setItems double middle rest = some after := by
  rw [setItems] at isSet
  obtain ⟨option, known, isSet⟩ := Option.bind_eq_some_iff.mp isSet
  split at isSet
  next => cases isSet
  next middle accepted => exact ⟨option, middle, known, accepted, isSet⟩

/-- The name of an item is read up to the equals sign. -/
theorem readToken_name {item : Item} {option : OptionId}
    (known : optionFromString item.name = some option) (rest : List Char) :
    readToken (item.text ++ rest) isOption isOptionEnd =
      some (item.name, '=', item.value ++ rest) := by
  rw [Item.text, List.append_assoc, List.cons_append]
  exact readToken_append (isOption_of_optionFromString known) (by decide) (by decide)

/-- The loop takes every list of items with values that it can read. -/
theorem parseLoop_of_isTaken {items : List Item} (isTaken : IsTaken double options cur items after)
    (enough : cur.length < turns) : parseLoop double turns options cur = some (true, after) := by
  obtain ⟨nonempty, rfl, values, isSet⟩ := isTaken
  induction items generalizing options turns with
  | nil => exact absurd rfl nonempty
  | cons item rest inductionHypothesis =>
      obtain ⟨option, middle, known, accepted, isRestSet⟩ := exists_of_setItems_cons isSet
      obtain ⟨turns, rfl⟩ : ∃ before, turns = before + 1 := ⟨turns - 1, by omega⟩
      have inClass := values item List.mem_cons_self
      rw [parseLoop]
      cases rest with
      | nil =>
          have isName := readToken_name known []
          have isLast : readToken (item.value ++ []) isValue isValueEnd =
              some (item.value, nul, []) := by
            rw [List.append_nil]
            exact readToken_end inClass (by decide)
          rw [List.append_nil] at isName
          obtain rfl := Option.some.inj isRestSet
          simp only [joinItems, isName, known, isLast, accepted, if_true]
      | cons next rest =>
          have isName := readToken_name known (',' :: joinItems (next :: rest))
          have isValueRead : readToken (item.value ++ ',' :: joinItems (next :: rest)) isValue
              isValueEnd = some (item.value, ',', joinItems (next :: rest)) :=
            readToken_append inClass (by decide) (by decide)
          rw [joinItems_cons item (List.cons_ne_nil _ _), List.length_append,
            List.length_cons] at enough
          have continues := inductionHypothesis (List.cons_ne_nil _ _)
            (fun other member => values other (List.mem_cons_of_mem _ member)) isRestSet
            (show (joinItems (next :: rest)).length < turns by omega)
          have notNul : ',' ≠ nul := by decide
          simp only [joinItems_cons item (List.cons_ne_nil next rest), isName, known, isValueRead,
            accepted, if_neg notNul, continues]

end Loop

/-! ## Letters -/

section Letters

variable {Double : Type} {double : DoubleParser Double} {options after : CommonOptions Double}
variable {str : List Char} {items : List Item}

theorem isUpper_of_isLower {char : Char} (isLower : char.isLower = true) :
    char.isUpper = false := by
  simp only [Char.isLower, Char.isUpper, Bool.and_eq_true, decide_eq_true_eq, ge_iff_le,
    UInt32.le_iff_toNat_le] at *
  simp at *
  omega

theorem isUpper_of_isDigit {char : Char} (isDigit : char.isDigit = true) :
    char.isUpper = false := by
  simp only [Char.isDigit, Char.isUpper, Bool.and_eq_true, decide_eq_true_eq, ge_iff_le,
    UInt32.le_iff_toNat_le] at *
  simp at *
  omega

theorem isUpper_of_isOption {char : Char} (inClass : isOption char = true) :
    char.isUpper = false := by
  rw [isOption, Bool.or_eq_true, decide_eq_true_eq] at inClass
  rcases inClass with isLower | rfl
  · exact isUpper_of_isLower isLower
  · rfl

/-- What the loop reads as a value are the characters of values but for the uppercase letters. -/
theorem isValue_iff (char : Char) :
    isValue char = true ↔ isValueChar char = true ∧ char.isUpper = false := by
  rw [isValue, isValueChar]
  constructor
  · intro inClass
    simp only [Bool.or_eq_true, decide_eq_true_eq] at inClass ⊢
    rcases inClass with (((isLower | isDigit) | rfl) | rfl) | rfl
    · exact ⟨by simp [isLower], isUpper_of_isLower isLower⟩
    · exact ⟨by simp [isDigit], isUpper_of_isDigit isDigit⟩
    all_goals exact ⟨by decide, rfl⟩
  · rintro ⟨inClass, notUpper⟩
    rwa [notUpper, Bool.or_false] at inClass

/-- What the loop takes has no uppercase letters. -/
theorem isUpper_of_mem_joinItems (isSet : setItems double options items = some after)
    (values : ∀ item ∈ items, ∀ char ∈ item.value, isValue char = true) :
    ∀ char ∈ joinItems items, char.isUpper = false := by
  induction items generalizing options with
  | nil => exact nofun
  | cons item rest inductionHypothesis =>
      obtain ⟨option, middle, known, -, isRestSet⟩ := exists_of_setItems_cons isSet
      have inItem : ∀ char ∈ item.text, char.isUpper = false := by
        intro char member
        rcases List.mem_append.mp member with inName | inRest
        · exact isUpper_of_isOption (isOption_of_optionFromString known char inName)
        · rcases List.mem_cons.mp inRest with rfl | inValue
          · rfl
          · exact ((isValue_iff char).mp (values item List.mem_cons_self char inValue)).2
      cases rest with
      | nil => exact inItem
      | cons next rest =>
          have inRest := inductionHypothesis isRestSet
            fun other member => values other (List.mem_cons_of_mem _ member)
          intro char member
          rw [joinItems_cons item (List.cons_ne_nil _ _), List.mem_append, List.mem_cons] at member
          rcases member with inText | rfl | inJoined
          · exact inItem char inText
          · rfl
          · exact inRest char inJoined

theorem mem_joinItems {item : Item} (member : item ∈ items) {char : Char}
    (inValue : char ∈ item.value) :
    char ∈ joinItems items := by
  induction items with
  | nil => cases member
  | cons first rest inductionHypothesis =>
      cases rest with
      | nil =>
          rw [List.mem_singleton.mp member] at inValue
          simp [joinItems, Item.text, inValue]
      | cons next rest =>
          rw [joinItems_cons first (List.cons_ne_nil _ _), List.mem_append, List.mem_cons]
          rcases List.mem_cons.mp member with rfl | inRest
          · exact .inl (by simp [Item.text, inValue])
          · exact .inr (.inr (inductionHypothesis inRest))

theorem joinItems_ne_nil (nonempty : items ≠ []) : joinItems items ≠ [] := by
  cases items with
  | nil => exact absurd rfl nonempty
  | cons item rest =>
      cases rest with
      | nil => simp [joinItems, Item.text]
      | cons next rest => simp [joinItems, Item.text]

end Letters

/-- `gc_options_parse_and_set_many` takes the lists of options and no other strings, and sets the
options from left to right, if and only if no value has an uppercase letter. -/
theorem parseAndSetMany_iff {Double : Type} (double : DoubleParser Double)
    (options : CommonOptions Double) (str : CString) :
    ParsesItems double options str.chars (parseAndSetMany double options str.chars) ↔
      LowercaseValues double options str.chars := by
  constructor
  · intro parses items after isItemList item member char inValue
    have taken := (parses.accepts after).mpr (.inr ⟨items, isItemList⟩)
    have notEmpty : str.chars ≠ [] := isItemList.isText ▸ joinItems_ne_nil isItemList.nonempty
    rw [parseAndSetMany, if_neg notEmpty] at taken
    obtain ⟨read, isTaken⟩ := exists_isTaken str.noNul taken
    apply isUpper_of_mem_joinItems isTaken.isSet isTaken.values
    rw [← isTaken.isText, isItemList.isText]
    exact mem_joinItems member inValue
  · intro lowercase
    rw [parseAndSetMany]
    by_cases isEmpty : str.chars = []
    · rw [if_pos isEmpty]
      refine ⟨⟨_, _, rfl⟩, ?_⟩
      intro after
      constructor
      · rintro isSame
        exact .inl ⟨isEmpty, ((Prod.mk.inj (Option.some.inj isSame)).2).symm⟩
      · rintro (⟨-, rfl⟩ | ⟨items, isItemList⟩)
        · rfl
        · exact absurd (isItemList.isText.symm.trans isEmpty) (joinItems_ne_nil isItemList.nonempty)
    · rw [if_neg isEmpty]
      refine ⟨parseLoop_terminates (Nat.lt_succ_self _), ?_⟩
      intro after
      constructor
      · intro taken
        obtain ⟨items, nonempty, isText, values, isSet⟩ := exists_isTaken str.noNul taken
        exact .inr ⟨items, nonempty, isText,
          fun item member char inValue =>
            ((isValue_iff char).mp (values item member char inValue)).1, isSet⟩
      · rintro (⟨isNil, -⟩ | ⟨items, isItemList⟩)
        · exact absurd isNil isEmpty
        · have lowercaseItems := lowercase items after isItemList
          obtain ⟨nonempty, isText, values, isSet⟩ := isItemList
          apply parseLoop_of_isTaken ⟨nonempty, isText, ?_, isSet⟩ (Nat.lt_succ_self _)
          intro item member char inValue
          exact (isValue_iff char).mpr ⟨values item member char inValue,
            lowercaseItems item member char inValue⟩

/-- `6M` is a size, but not in a list. -/
theorem parseAndSetMany_fails :
    ¬∀ (options : CommonOptions Unit) (double : DoubleParser Unit) (str : CString),
      ParsesItems double options str.chars (parseAndSetMany double options str.chars) := by
  intro holds
  let double : DoubleParser Unit := ⟨fun arg => ((), arg), fun _ => true⟩
  have parses := holds (.init () 4) double ⟨"heap-size=6M".toList, by decide⟩
  have isItemList : IsItemList double (.init () 4) "heap-size=6M".toList
      [⟨"heap-size".toList, "6M".toList⟩] ((CommonOptions.init () 4).setSize .heapSize 6291456).2 :=
    ⟨List.cons_ne_nil _ _, rfl, List.forall_mem_singleton.mpr (List.all_eq_true.mp rfl), rfl⟩
  have taken := (parses.accepts _).mpr (.inr ⟨_, isItemList⟩)
  have rejected : parseAndSetMany double (.init () 4) "heap-size=6M".toList =
      some (false, .init () 4) := rfl
  rw [rejected] at taken
  cases taken

end Whippet.Options
