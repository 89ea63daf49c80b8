import DeltaGraph.Proofs.Toml.Decimal
import DeltaGraph.Toml.Document

/-!
# Documents of plain lines

A document of lines, each of which is blank or has one statement, is read as the
list of its statements.  Two kinds of such lines are a header of one part, and a
pair of a bare key and a value that is a token or a plain string.
-/

namespace DeltaGraph
namespace Toml

/-! ## Parts of a line -/

theorem skipBlanks_cons
    {first : Char}
    (visible : isBlank first = false)
    (rest : List Char) :
    skipBlanks (first :: rest) = first :: rest := by
  rw [skipBlanks, List.dropWhile_cons_of_neg (by simp [visible])]

theorem isBlank_of_isBare
    {char : Char}
    (bare : isBare char = true) :
    isBlank char = false := by
  refine Bool.eq_false_iff.mpr fun blank => ?_
  rw [isBlank, Bool.or_eq_true, beq_iff_eq, beq_iff_eq] at blank
  rcases blank with rfl | rfl <;> cases bare

/-- A name that can be a key without quotes. -/
structure IsBareKey (name : String) : Prop where
  filled : name.toList ≠ []
  bare : ∀ char ∈ name.toList, isBare char = true

namespace IsBareKey

variable {name : String} (key : IsBareKey name)

include key

/-- A bare key starts with a bare character. -/
theorem exists_cons : ∃ first more, name.toList = first :: more ∧
    isBare first = true := by
  obtain ⟨first, more, written⟩ := List.exists_cons_of_ne_nil key.filled
  exact ⟨first, more, written, key.bare first (by simp [written])⟩

theorem append_ne_cons
    {mark : Char}
    (no : isBare mark = false)
    (rest more : List Char) :
    name.toList ++ rest ≠ mark :: more := by
  intro written
  obtain ⟨first, others, start, bare⟩ := key.exists_cons
  rw [start, List.cons_append] at written
  rw [← (List.cons.inj written).1, bare] at no
  cases no

/-- The bare characters before a mark that is not one are the key. -/
theorem takeWhile_append
    {next : Char}
    (ends : isBare next = false)
    (rest : List Char) :
    (name.toList ++ next :: rest).takeWhile isBare = name.toList := by
  rw [List.takeWhile_append_of_pos key.bare,
    List.takeWhile_cons_of_neg (by simp [ends]), List.append_nil]

theorem dropWhile_append
    {next : Char}
    (ends : isBare next = false)
    (rest : List Char) :
    (name.toList ++ next :: rest).dropWhile isBare = next :: rest := by
  rw [List.dropWhile_append_of_pos key.bare,
    List.dropWhile_cons_of_neg (by simp [ends])]

/-- A bare key is read back up to the mark that ends it. -/
theorem readKeyPart
    {next : Char}
    (ends : isBare next = false)
    (rest : List Char) :
    readKeyPart (name.toList ++ next :: rest) = some (name, next :: rest) := by
  unfold Toml.readKeyPart
  split
  case h_1 written => exact (key.append_ne_cons rfl _ _ written).elim
  case h_2 written => exact (key.append_ne_cons rfl _ _ written).elim
  case h_3 =>
    simp [key.takeWhile_append ends, key.dropWhile_append ends, key.filled]

/-- A key of one part is read up to what is not blank after it. -/
theorem readKey
    {next : Char}
    (ends : isBare next = false)
    {rest more : List Char}
    (skipped : skipBlanks (next :: rest) = more)
    (single : ∀ parts, more ≠ '.' :: parts) :
    readKey (name.toList ++ next :: rest) = some (⟨[], name⟩, more) := by
  have start :
      skipBlanks (name.toList ++ next :: rest) =
        name.toList ++ next :: rest := by
    obtain ⟨first, others, written, bare⟩ := key.exists_cons
    rw [written, List.cons_append, skipBlanks_cons (isBlank_of_isBare bare)]
  have parts :
      readKeyParts maxParts (name.toList ++ next :: rest) =
        some ([name], more) := by
    rw [maxParts, readKeyParts, start, key.readKeyPart ends]
    simp only [Option.bind_eq_bind, Option.bind_some, skipped]
    rfl
  simp [Toml.readKey, parts]

end IsBareKey

/-- A token up to a character that does not belong to it is read as a value. -/
theorem readValue_token
    (limit : Nat)
    {depth : Nat}
    {token : List Char}
    {next : Char}
    {rest : List Char}
    {value : Toml}
    (filled : token ≠ [])
    (tokens : ∀ char ∈ token, isTokenChar char = true)
    (ends : isTokenChar next = false)
    (undated : isDate token = false)
    (read : tokenValue? token = some value) :
    readValue limit depth (token ++ next :: rest) =
      some (value, next :: rest) := by
  have taken : (token ++ next :: rest).takeWhile isTokenChar = token := by
    rw [List.takeWhile_append_of_pos tokens,
      List.takeWhile_cons_of_neg (by simp [ends]), List.append_nil]
  have dropped :
      (token ++ next :: rest).dropWhile isTokenChar = next :: rest := by
    rw [List.dropWhile_append_of_pos tokens,
      List.dropWhile_cons_of_neg (by simp [ends])]
  have whole : takeToken (token ++ next :: rest) = (token, next :: rest) := by
    rw [takeToken, taken, dropped, undated]
  -- the other kinds of values start with a character that is not part of a
  -- token
  have plain (mark : Char) (no : isTokenChar mark = false) (more : List Char) :
      token ++ next :: rest ≠ mark :: more := by
    intro written
    obtain ⟨first, others, rfl⟩ := List.exists_cons_of_ne_nil filled
    rw [List.cons_append] at written
    cases written
    rw [tokens mark (.head _)] at no
    cases no
  rw [readValue.eq_def]
  dsimp only
  split
  next written => exact (plain _ rfl _ written).elim
  next written => exact (plain _ rfl _ written).elim
  next written => exact (plain _ rfl _ written).elim
  next written => exact (plain _ rfl _ written).elim
  · rw [whole]
    simp [read]

/-! ## Values and statements -/

/-- A text that at the end of a line is read as a value. -/
structure Spells (text : String) (value : Toml) : Prop where
  visible : ∃ first more, text.toList = first :: more ∧ isBlank first = false
  read (limit : Nat) (rest : List Char) :
    readValue limit maxDepth (text.toList ++ '\n' :: rest) =
      some (value, '\n' :: rest)

/-- A truth value is written as it is read. -/
theorem spells_boolean (value : Bool) :
    Spells (if value then "true" else "false") (.boolean value) := by
  cases value
  all_goals
    exact ⟨⟨_, _, rfl, rfl⟩, fun limit _ =>
      readValue_token limit (by decide) (List.all_eq_true.mp rfl) rfl rfl rfl⟩

/-- A number below two to the sixty-third is written as it is read. -/
theorem spells_integer {number : Nat} (small : number < 2 ^ 63) :
    Spells (toString number) (.integer number) := by
  have digits : (toString number).toList = Nat.toDigits 10 number := by
    rw [Nat.toString_eq_repr, Nat.toList_repr]
  have digital := digital_toDigits number
  constructor
  case visible =>
    obtain ⟨first, more, written⟩ := List.exists_cons_of_ne_nil
      (Nat.toDigits_ne_nil (n := number) (b := 10))
    have digit := digital first (by simp [written])
    exact ⟨first, more, digits.trans written, isBlank_of_isBare (by
      simp [isBare, Char.isAlphanum, digit])⟩
  case read =>
    intro limit rest
    rw [digits]
    exact readValue_token limit Nat.toDigits_ne_nil
      (fun char member => isTokenChar_of_isDigit (digital char member)) rfl
      (isDate_of_digits digital) (tokenValue?_toDigits number small)

/-- Characters that a string shows as they are, up to the closing quote. -/
theorem basicRest_append
    {chars : List Char}
    (basic : ∀ char ∈ chars, isBasic char = true)
    (rest : List Char) :
    basicRest (chars ++ '"' :: rest) = some (chars, rest) := by
  induction chars with
  | nil => rfl
  | cons first chars inductionHypothesis =>
      have shown := basic first (.head _)
      have more :=
        inductionHypothesis fun char member => basic char (.tail _ member)
      have noQuote : first ≠ '"' := by rintro rfl; cases shown
      have noEscape : first ≠ '\\' := by rintro rfl; cases shown
      rw [List.cons_append, basicRest]
      · simp [shown, more, before]
      all_goals simp [noQuote, noEscape]

/-- A text of basic characters between quotes is read back as it is. -/
theorem spells_string
    {text : String}
    (basic : ∀ char ∈ text.toList, isBasic char = true) :
    Spells ("\"" ++ text ++ "\"") (.string text) := by
  have chars :
      ("\"" ++ text ++ "\"").toList = '"' :: (text.toList ++ ['"']) := by simp
  constructor
  case visible => exact ⟨_, _, chars, rfl⟩
  case read =>
    intro limit rest
    have single (quotes : List Char) :
        text.toList ++ '"' :: '\n' :: rest ≠ '"' :: '"' :: quotes := by
      intro written
      cases start : text.toList with
      | nil =>
          rw [start] at written
          cases written
      | cons first chars =>
          rw [start, List.cons_append] at written
          have quote := basic first (by simp [start])
          rw [(List.cons.inj written).1] at quote
          cases quote
    have line : readString ('"' :: (text.toList ++ '"' :: '\n' :: rest)) =
        some (text, '\n' :: rest) := by
      unfold readString
      split
      case h_1 written => exact (single _ (List.cons.inj written).2).elim
      case h_2 written => cases written
      case h_3 => simp [readLineString, basicRest_append basic]
    rw [chars, List.cons_append, List.append_assoc, List.singleton_append,
      readValue.eq_def]
    simp [line]

/-- The character may begin a statement. -/
def StartsStatement (char : Char) : Prop := char = '[' ∨ isBare char = true

namespace StartsStatement

variable {char : Char} (starts : StartsStatement char)

include starts

theorem ne_of_not_bare
    (mark : Char)
    (other : mark ≠ '[')
    (no : isBare mark = false) :
    char ≠ mark := by
  rintro rfl
  rcases starts with rfl | bare
  · exact other rfl
  · rw [bare] at no
    cases no

theorem skipBlanks (rest : List Char) :
    Toml.skipBlanks (char :: rest) = char :: rest := by
  rcases starts with rfl | bare
  · rfl
  · exact skipBlanks_cons (isBlank_of_isBare bare) rest

/-- A line with a statement is neither blank nor a comment. -/
theorem lineEnd? (rest : List Char) : Toml.lineEnd? (char :: rest) = none := by
  have comment := starts.ne_of_not_bare '#' (by decide) rfl
  have newline := starts.ne_of_not_bare '\n' (by decide) rfl
  have carriage := starts.ne_of_not_bare '\r' (by decide) rfl
  have kept : skipComment (char :: rest) = char :: rest := by
    simp [skipComment, starts.skipBlanks, comment]
  simp [Toml.lineEnd?, kept, newline?, newline, carriage]

end StartsStatement

/-- A line that is read as a statement. -/
structure States (line : String) (statement : Statement) : Prop where
  starts : ∃ first more, line.toList = first :: more ∧ StartsStatement first
  read (limit : Nat) (rest : List Char) :
    readStatement limit (line.toList ++ '\n' :: rest) =
      some (statement, '\n' :: rest)

/-- A line that opens a table is read as that table. -/
theorem states_table {name : String} (key : IsBareKey name) :
    States ("[" ++ name ++ "]") (.table ⟨[], name⟩) := by
  have chars : ("[" ++ name ++ "]").toList = '[' :: (name.toList ++ [']']) := by
    simp
  constructor
  case starts => exact ⟨_, _, chars, .inl rfl⟩
  case read =>
    intro limit rest
    have path : readKey (name.toList ++ ']' :: '\n' :: rest) =
        some (⟨[], name⟩, ']' :: '\n' :: rest) :=
      key.readKey rfl (skipBlanks_cons rfl _) (by simp)
    rw [chars, List.cons_append, List.append_assoc, List.singleton_append]
    unfold readStatement
    split
    case h_1 written =>
      exact (key.append_ne_cons rfl _ _ (List.cons.inj written).2).elim
    case h_2 written =>
      cases written
      simp [path]
    case h_3 other => exact (other _ rfl).elim

/-- A key, an equals sign between blanks and a value are read as a pair. -/
theorem Spells.readPair
    {name text : String}
    {value : Toml}
    (spells : Spells text value)
    (key : IsBareKey name)
    (limit : Nat)
    (rest : List Char) :
    readPair (readValue limit maxDepth)
        (name.toList ++ ' ' :: '=' :: ' ' :: (text.toList ++ '\n' :: rest)) =
      some ((⟨[], name⟩, value), '\n' :: rest) := by
  have path :
      readKey
        (name.toList ++ ' ' :: '=' :: ' ' :: (text.toList ++ '\n' :: rest)) =
        some (⟨[], name⟩, '=' :: ' ' :: (text.toList ++ '\n' :: rest)) :=
    key.readKey rfl rfl (by simp)
  have skipped : skipBlanks (' ' :: (text.toList ++ '\n' :: rest)) =
      text.toList ++ '\n' :: rest := by
    obtain ⟨letter, letters, written, visible⟩ := spells.visible
    rw [written]
    exact skipBlanks_cons visible _
  simp [Toml.readPair, path, skipped, spells.read]

/-- A line that sets a key to a written value is read as that setting. -/
theorem states_pair {name text : String} {value : Toml} (key : IsBareKey name)
    (spells : Spells text value) :
    States (name ++ " = " ++ text) (.pair ⟨[], name⟩ value) := by
  have chars (rest : List Char) : (name ++ " = " ++ text).toList ++ rest =
      name.toList ++ ' ' :: '=' :: ' ' :: (text.toList ++ rest) := by
    simp
  constructor
  case starts =>
    obtain ⟨first, more, start, bare⟩ := key.exists_cons
    have whole := chars []
    rw [List.append_nil, start, List.cons_append] at whole
    exact ⟨first, _, whole, .inr bare⟩
  case read =>
    intro limit rest
    rw [chars]
    unfold readStatement
    split
    case h_1 written => exact (key.append_ne_cons rfl _ _ written).elim
    case h_2 written => exact (key.append_ne_cons rfl _ _ written).elim
    case h_3 => simp [spells.readPair key]

/-! ## Documents -/

theorem toList_ofLines_cons (line : String) (lines : List String) :
    (ofLines (line :: lines)).toList =
      line.toList ++ '\n' :: (ofLines lines).toList := by
  simp [ofLines, String.join_cons]

/-- Lines that are blank or have a statement each. -/
inductive Written : List String → List Statement → Prop
  | nil : Written [] []
  | blank {lines : List String} {statements : List Statement}
      (rest : Written lines statements) :
      Written ("" :: lines) statements
  | line {line : String} {lines : List String} {statement : Statement}
      {statements : List Statement} (first : States line statement)
      (rest : Written lines statements) :
      Written (line :: lines) (statement :: statements)

namespace Written

variable {lines others : List String} {statements more : List Statement}

/-- Two groups of lines one after the other state what they state, in order. -/
theorem append
    (written : Written lines statements)
    (rest : Written others more) :
    Written (lines ++ others) (statements ++ more) := by
  induction written with
  | nil => exact rest
  | blank _ inductionHypothesis => exact .blank inductionHypothesis
  | line first _ inductionHypothesis => exact .line first inductionHypothesis

/-- Lines are read as their statements if enough lines may be read. -/
theorem readStatements
    (written : Written lines statements)
    (limit : Nat)
    {count : Nat}
    (enough : lines.length < count) :
    Toml.readStatements limit count (ofLines lines).toList =
      some statements := by
  induction written generalizing count with
  | nil =>
      obtain ⟨count, rfl⟩ :=
        Nat.exists_eq_add_one_of_ne_zero (Nat.ne_zero_of_lt enough)
      rfl
  | @blank lines statements _ inductionHypothesis =>
      obtain ⟨count, rfl⟩ :=
        Nat.exists_eq_add_one_of_ne_zero (Nat.ne_zero_of_lt enough)
      rw [toList_ofLines_cons]
      exact inductionHypothesis (Nat.lt_of_succ_lt_succ enough)
  | @line line lines statement statements first _ inductionHypothesis =>
      obtain ⟨count, rfl⟩ :=
        Nat.exists_eq_add_one_of_ne_zero (Nat.ne_zero_of_lt enough)
      have rest := inductionHypothesis (Nat.lt_of_succ_lt_succ enough)
      obtain ⟨char, more, start, starts⟩ := first.starts
      have skipped :
          skipBlanks (line.toList ++ '\n' :: (ofLines lines).toList) =
            line.toList ++ '\n' :: (ofLines lines).toList := by
        rw [start]
        exact starts.skipBlanks _
      have noEnd :
          lineEnd? (line.toList ++ '\n' :: (ofLines lines).toList) = none := by
        rw [start]
        exact starts.lineEnd? _
      have filled : line.toList ++ '\n' :: (ofLines lines).toList ≠ [] := by
        simp
      have ends :
          lineEnd? ('\n' :: (ofLines lines).toList) =
            some (ofLines lines).toList := rfl
      rw [toList_ofLines_cons, Toml.readStatements, skipped]
      split
      case h_1 empty => exact (filled empty).elim
      case h_2 => simp [noEnd, first.read, ends, rest]

/-- The text has a line end for each line. -/
theorem length_le (lines : List String) :
    lines.length ≤ (ofLines lines).toList.length := by
  induction lines with
  | nil => exact Nat.zero_le _
  | cons line lines inductionHypothesis =>
      rw [toList_ofLines_cons, List.length_append, List.length_cons,
        List.length_cons]
      omega

/-- A written document carries no byte order mark that reading would skip. -/
theorem skipMark_ofLines (written : Written lines statements) :
    skipMark (ofLines lines).toList = (ofLines lines).toList := by
  cases written with
  | nil => rfl
  | blank => rw [toList_ofLines_cons]; rfl
  | line first rest =>
      obtain ⟨char, more, start, starts⟩ := first.starts
      have unmarked := starts.ne_of_not_bare '\ufeff' (by decide) rfl
      rw [toList_ofLines_cons, start, List.cons_append]
      simp [skipMark, unmarked]

/-- The entries of a document of lines are those of its statements. -/
theorem parse?_ofLines (written : Written lines statements) :
    parse? (ofLines lines) =
      (statements.foldlM Draft.add {}).map Draft.entries := by
  have enough : lines.length < (ofLines lines).toList.length + 1 :=
    Nat.lt_succ_of_le (length_le lines)
  simp only [parse?, written.skipMark_ofLines, written.readStatements _ enough,
    Option.bind_eq_bind, Option.bind_some]
  cases statements.foldlM Draft.add {} <;> rfl

end Written

end Toml
end DeltaGraph
