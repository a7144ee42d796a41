import Mathlib.Data.List.Basic
import Mathlib.Logic.Relation

/-! The parser of the scripts of the `mx` shell. -/
namespace Mx.Script

open List

/-- What is left of the file, the character `c` first. -/
abbrev Input := List Char

/-- `EOF` as a character. It is also what `c` is for the byte 255. -/
def eof : Char := Char.ofNat 255

def current : Input → Char
  | [] => eof
  | c :: _ => c

def isspace (c : Char) : Bool := c = ' ' || ('\t' ≤ c && c ≤ '\r')

structure LsPair where
  key : List Char
  value : List Char
  deriving DecidableEq

abbrev LsStatement := List LsPair

def skipBlanks (input : Input) : Input := input.dropWhile fun c => c ≠ '\n' && isspace c

def inKey (c : Char) : Bool := c ≠ ':' && c ≠ '\n' && c ≠ eof

def key (input : Input) : List Char × Input :=
  ((skipBlanks input).takeWhile inKey, (skipBlanks input).dropWhile inKey)

def valueFrom (instr esc : Bool) : Input → List Char × Input
  | [] => ([], [])
  | c :: rest =>
    if c = eof then ([], c :: rest)
    else if c = '"' ∧ esc = false then valueFrom (!instr) false rest
    else if c = '\\' ∧ esc = false then valueFrom instr true rest
    else if isspace c ∧ instr = false ∧ esc = false then ([], c :: rest)
    else (c :: (valueFrom instr false rest).1, (valueFrom instr false rest).2)

def value (input : Input) : List Char × Input := valueFrom false false (skipBlanks input)

def pair (input : Input) : Option LsPair × Input :=
  let k := key input
  if k.1 = [] then (none, k.2)
  else
    let v := value (if current k.2 = ':' then k.2.tail else k.2)
    if v.1 = [] then (none, v.2) else (some ⟨k.1, v.1⟩, v.2)

/-- The loop over a comment, which only ends at the end of a line: at the end of the file `c`
stays `EOF`. -/
def skipComment : Input → Option Input
  | [] => none
  | c :: rest => if c = '\n' then some (c :: rest) else skipComment rest

variable {input rest : Input} {text : List Char} {c : Char}

/-- There is a line end where the comment ends. -/
theorem length_skipComment (h : skipComment input = some rest) :
    rest.tail.length < input.length := by
  fun_induction skipComment input with
  | case1 => cases h
  | case2 rest =>
    cases h
    exact Nat.lt_succ_self _
  | case3 c rest _ ih => exact Nat.lt_succ_of_lt (ih h)

theorem length_tail (h : isspace (current input) = true) : input.tail.length < input.length := by
  cases input with
  | nil => exact absurd h (by decide)
  | cons c rest => exact Nat.lt_succ_self _

def skipLines (input : Input) : Option Input :=
  if current input = '#' then
    match _hSkip : skipComment input with
    | none => none
    | some rest => skipLines rest.tail
  else if _hSpace : isspace (current input) then skipLines input.tail
  else some input
termination_by input.length
decreasing_by
  · exact length_skipComment _hSkip
  · exact length_tail _hSpace

theorem skipLines_eq (input : Input) : skipLines input =
    if current input = '#' then (skipComment input).bind fun rest => skipLines rest.tail
    else if isspace (current input) then skipLines input.tail else some input := by
  rw [skipLines]
  split_ifs
  · split <;> simp [*]
  · rfl
  · rfl

/-- Whether the comments in front of the next statement are all ended by a line end.
The flag says that the text begins inside of a comment. -/
def closed (comment : Bool) : Input → Bool
  | [] => !comment
  | c :: rest =>
    if comment then closed (c ≠ '\n') rest
    else if c = '#' then closed true rest
    else if isspace c then closed false rest
    else true

/-- The loops over blanks and comments end if all comments do. -/
theorem skipLines_isSome (input : Input) :
    ((skipComment input).bind fun rest => skipLines rest.tail).isSome = closed true input ∧
    (skipLines input).isSome = closed false input := by
  induction input with
  | nil =>
    rw [skipLines]
    exact ⟨rfl, rfl⟩
  | cons c rest ih =>
    constructor
    · rw [skipComment]
      by_cases hLine : c = '\n' <;> simp [closed, hLine, ih]
    · rw [skipLines_eq]
      by_cases hHash : c = '#'
      · simp [current, closed, hHash, ← ih.1, skipComment]
      · by_cases hSpace : isspace c <;> simp [current, closed, hHash, hSpace, ih]

theorem length_skipLines (h : skipLines input = some rest) : rest.length ≤ input.length := by
  fun_induction skipLines input with
  | case1 => cases h
  | case2 input _ middle hSkip ih => exact Nat.le_trans (ih h) (Nat.le_of_lt (length_skipComment hSkip))
  | case3 input _ hSpace ih => exact Nat.le_trans (ih h) (Nat.le_of_lt (length_tail hSpace))
  | case4 =>
    cases h
    exact Nat.le_refl _

theorem length_value (input : Input) : (value input).2.length ≤ input.length := by
  have hFrom (instr esc : Bool) (rest : Input) :
      (valueFrom instr esc rest).2.length ≤ rest.length := by
    fun_induction valueFrom instr esc rest <;> simp_all <;> omega
  exact Nat.le_trans (hFrom _ _ _) (dropWhile_suffix _).length_le

theorem length_key (input : Input) :
    (key input).1.length + (key input).2.length ≤ input.length := by
  rw [← length_append, key, takeWhile_append_dropWhile]
  exact (dropWhile_suffix _).length_le

/-- A pair takes at least the characters of its key. -/
theorem length_pair (input : Input) : (pair input).2.length ≤ input.length ∧
    ((pair input).1 ≠ none → (pair input).2.length < input.length) := by
  have hKey := length_key input
  have hTail : (if current (key input).2 = ':' then (key input).2.tail
    else (key input).2).length ≤ (key input).2.length := by split_ifs <;> simp
  simp only [pair]
  generalize (if current (key input).2 = ':' then (key input).2.tail else (key input).2) = next at *
  have hValue := length_value next
  split_ifs with hNone hEmpty
  · simp
    omega
  · simp
    omega
  · have hPositive := length_pos_of_ne_nil hNone
    simp
    omega

def pairs (input : Input) : Option (List LsPair × Input) :=
  match _hPair : pair input with
  | (none, rest) => some ([], rest)
  | (some p, rest) => do
    let (ps, rest) ← pairs rest
    return (p :: ps, rest)
termination_by input.length
decreasing_by
  have hLess := (length_pair input).2
  rw [_hPair] at hLess
  exact hLess nofun

theorem exists_pairs (input : Input) : ∃ ps rest, pairs input = some (ps, rest) ∧
    rest.length ≤ input.length ∧ (ps ≠ [] → rest.length < input.length) := by
  induction hLength : input.length using Nat.strongRecOn generalizing input with
  | _ n ih =>
    have hPair := length_pair input
    rw [pairs]
    generalize pair input = parsed at hPair ⊢
    obtain ⟨_ | p, rest⟩ := parsed
    · exact ⟨[], rest, rfl, by simpa [hLength] using hPair⟩
    · simp [hLength] at hPair
      obtain ⟨ps, rest', hPairs, hLe, -⟩ := ih _ hPair.2 rest rfl
      simp [hPairs]
      omega

/-- A call of `statement`. Without pairs there is no statement. -/
def statement (input : Input) : Option (Option LsStatement × Input) := do
  let (ps, rest) ← pairs (← skipLines input)
  return (if ps = [] then none else some ps, rest)

/-- The statement calls that one call of `document` makes. -/
def Next (input rest : Input) : Prop := ∃ s, statement input = some (some s, rest)

theorem statement_isSome (input : Input) : (statement input).isSome = closed false input := by
  rw [← (skipLines_isSome input).2, statement]
  cases skipLines input with
  | none => rfl
  | some lines =>
    obtain ⟨ps, rest, hPairs, -⟩ := exists_pairs lines
    simp [hPairs]

theorem Next.length (h : Next input rest) : rest.length < input.length := by
  obtain ⟨s, hStatement⟩ := h
  rw [statement] at hStatement
  cases hLines : skipLines input with
  | none => simp [hLines] at hStatement
  | some lines =>
    have hSkip := length_skipLines hLines
    obtain ⟨ps, rest', hPairs, -, hLt⟩ := exists_pairs lines
    simp [hLines, hPairs] at hStatement
    obtain ⟨⟨hNot, -⟩, rfl⟩ := hStatement
    have := hLt hNot
    omega

/-- The statements of a file. There is no result if a loop does not end. -/
def document (input : Input) : Option (List LsStatement) :=
  match _hStatement : statement input with
  | none => none
  | some (none, _) => some []
  | some (some s, rest) => do return s :: (← document rest)
termination_by input.length
decreasing_by exact Next.length ⟨s, _hStatement⟩

theorem document_of_none (h : statement input = some (none, rest)) : document input = some [] := by
  rw [document]
  split <;> simp_all

theorem forall_reached_iff {P : Input → Prop} (input : Input) :
    (∀ rest, Relation.ReflTransGen Next input rest → P rest) ↔
      P input ∧ ∀ next, Next input next → ∀ rest, Relation.ReflTransGen Next next rest → P rest := by
  constructor
  · intro h
    exact ⟨h input .refl, fun next hNext rest hRest => h rest (.head hNext hRest)⟩
  · rintro ⟨hInput, hNext⟩ rest hRest
    obtain rfl | ⟨next, hFirst, hRest⟩ := hRest.cases_head
    · exact hInput
    · exact hNext next hFirst rest hRest

/-- A document is read to its end unless a statement begins with a comment in the last
line of a file that does not end this line. -/
theorem document_terminates_iff (input : Input) : (document input).isSome ↔
    ∀ rest, Relation.ReflTransGen Next input rest → closed false rest := by
  induction hLength : input.length using Nat.strongRecOn generalizing input with
  | _ n ih =>
    have hClosed := statement_isSome input
    rw [forall_reached_iff, ← hClosed, document]
    cases hStatement : statement input with
    | none => simp
    | some parsed =>
      obtain ⟨_ | s, rest⟩ := parsed
      · simp [Next, hStatement]
      · have hNext : Next input rest := ⟨s, hStatement⟩
        have hRest := ih _ (hLength ▸ hNext.length) rest rfl
        simp [Next, hStatement, ← hRest]
        cases document rest <;> rfl

/-- The loop over the comment never finds a line end. -/
theorem document_comment_only : document ['#'] = none := by
  have hStatement := statement_isSome ['#']
  simp [closed] at hStatement
  rw [document, hStatement]

def escape (text : List Char) : List Char :=
  text.flatMap fun c => if c = '"' ∨ c = '\\' then ['\\', c] else [c]

def printPair (p : LsPair) : List Char := p.key ++ ':' :: '"' :: (escape p.value ++ ['"'])

def printStatement : LsStatement → List Char
  | [] => ['\n']
  | p :: ps => printPair p ++ (ps.flatMap fun q => ' ' :: printPair q) ++ ['\n']

def printDocument (doc : List LsStatement) : List Char := doc.flatMap printStatement

/-- What a pair must be to be printed: a key that begins with no blank and does not
end early, and a value. -/
structure LsPair.Printable (p : LsPair) : Prop where
  key_ne_nil : p.key ≠ []
  head_key : ∀ c ∈ p.key.head?, isspace c = false
  key_inKey : ∀ c ∈ p.key, inKey c
  value_ne_nil : p.value ≠ []
  value_eof : eof ∉ p.value

/-- No statement is empty or looks like a comment. -/
structure Printable (s : LsStatement) : Prop where
  ne_nil : s ≠ []
  pair : ∀ p ∈ s, p.Printable
  head : ∀ p ∈ s.head?, p.key.head? ≠ some '#'

theorem valueFrom_escape {rest : List Char} (h : eof ∉ text) :
    valueFrom true false (escape text ++ '"' :: rest) =
      (text ++ (valueFrom false false rest).1, (valueFrom false false rest).2) := by
  induction text with
  | nil => simp [escape, valueFrom, eof]
  | cons c text ih =>
    simp only [mem_cons, not_or] at h
    have hEof : c ≠ eof := Ne.symm h.1
    have hSlash : '\\' ≠ eof := by decide
    have ih := ih h.2
    simp only [escape, flatMap_cons] at ih ⊢
    split_ifs with hSpecial
    · simp [valueFrom, hEof, hSlash, ih]
    · rw [not_or] at hSpecial
      simp [valueFrom, hEof, hSpecial, ih]

/-- Neither a line end nor a blank is missed before something else. -/
theorem skipBlanks_of_head (h : isspace (current input) = false) : skipBlanks input = input := by
  cases input with
  | nil => rfl
  | cons c rest =>
    have hBlank : isspace c = false := h
    simp [skipBlanks, hBlank]

theorem value_print {rest : List Char} (hText : eof ∉ text) (hSpace : isspace c) :
    value ('"' :: (escape text ++ '"' :: c :: rest)) = (text, c :: rest) := by
  have hEof : c ≠ eof := by
    rintro rfl
    exact absurd hSpace (by decide)
  have hNot : c ≠ '"' ∧ c ≠ '\\' := by
    constructor <;> rintro rfl <;> exact absurd hSpace (by decide)
  have hEnd : valueFrom false false (c :: rest) = ([], c :: rest) := by
    simp [valueFrom, hEof, hNot, hSpace]
  have hOpen : valueFrom false false ('"' :: (escape text ++ '"' :: c :: rest)) =
      valueFrom true false (escape text ++ '"' :: c :: rest) := by
    rw [valueFrom]
    simp [eof]
  rw [value, skipBlanks, dropWhile_cons_of_neg (by decide), hOpen, valueFrom_escape hText,
    hEnd, append_nil]

theorem pair_print {p : LsPair} {rest : List Char} (h : p.Printable)
    (hSpace : isspace c) : pair (printPair p ++ c :: rest) = (some p, c :: rest) := by
  have hHead : isspace (current (printPair p ++ c :: rest)) = false := by
    obtain ⟨first, others, hKey⟩ := exists_cons_of_ne_nil h.key_ne_nil
    have hFirst := h.head_key
    simp_all [printPair, current]
  have hKey : key (printPair p ++ c :: rest) =
      (p.key, ':' :: '"' :: (escape p.value ++ '"' :: c :: rest)) := by
    have hColon : inKey ':' = false := by decide
    rw [key, skipBlanks_of_head hHead]
    simp [printPair, takeWhile_append_of_pos h.key_inKey,
      dropWhile_append_of_pos h.key_inKey, hColon]
  simp [pair, hKey, current, value_print h.value_eof hSpace, h.key_ne_nil, h.value_ne_nil]

theorem pairs_blank (input : Input) : pairs (' ' :: input) = pairs input := by
  have hKey : key (' ' :: input) = key input := by simp [key, skipBlanks, isspace]
  rw [pairs, pairs, pair, pair, hKey]

theorem pairs_print {ps : List LsPair} (rest : Input) (h : ∀ p ∈ ps, p.Printable) :
    pairs ((ps.flatMap fun p => ' ' :: printPair p) ++ '\n' :: rest) = some (ps, '\n' :: rest) := by
  induction ps with
  | nil =>
    rw [pairs]
    simp [pair, key, skipBlanks, inKey]
  | cons p ps ih =>
    simp only [mem_cons, forall_eq_or_imp] at h
    have ih := ih h.2
    simp only [flatMap_cons, cons_append, pairs_blank, append_assoc]
    have hNext : ∃ c more, isspace c ∧
        (ps.flatMap fun p => ' ' :: printPair p) ++ '\n' :: rest = c :: more := by
      cases ps with
      | nil => exact ⟨'\n', rest, by decide, rfl⟩
      | cons q ps => exact ⟨' ', _, by decide, rfl⟩
    obtain ⟨c, more, hSpace, hMore⟩ := hNext
    rw [hMore] at ih ⊢
    rw [pairs, pair_print h.1 hSpace]
    simp [ih]

theorem statement_print {s : LsStatement} (h : Printable s) :
    statement (printStatement s ++ rest) = some (some s, '\n' :: rest) := by
  obtain ⟨p, ps, rfl⟩ := exists_cons_of_ne_nil h.ne_nil
  have hPair := h.pair p (by simp)
  have hPairs := pairs_print rest h.pair
  rw [flatMap_cons, cons_append, cons_append, pairs_blank] at hPairs
  obtain ⟨c, key, hKey⟩ := exists_cons_of_ne_nil hPair.key_ne_nil
  have hBlank := hPair.head_key
  have hHash := h.head
  have hLines : skipLines (printStatement (p :: ps) ++ rest) =
      some (printStatement (p :: ps) ++ rest) := by
    rw [skipLines]
    simp_all [printStatement, printPair, current]
  rw [statement, hLines]
  simp_all [printStatement]

theorem document_line (input : Input) : document ('\n' :: input) = document input := by
  have hLines : skipLines ('\n' :: input) = skipLines input := by
    rw [skipLines]
    rfl
  rw [document, document, statement, statement, hLines]

theorem statement_of_head (hHash : current input ≠ '#')
    (hSpace : isspace (current input) = false) (hPair : pair input = (none, rest)) :
    statement input = some (none, rest) := by
  have hLines : skipLines input = some input := by
    rw [skipLines, if_neg hHash]
    simp [hSpace]
  have hPairs : pairs input = some ([], rest) := by
    rw [pairs, hPair]
  simp [statement, hLines, hPairs]

/-- A printed document is read back as it was. -/
theorem document_print (doc : List LsStatement) (h : ∀ s ∈ doc, Printable s) :
    document (printDocument doc) = some doc := by
  induction doc with
  | nil =>
    have hStatement : statement [] = some (none, []) :=
      statement_of_head (by decide) (by decide) (by decide)
    rw [printDocument, flatMap_nil, document_of_none hStatement]
  | cons s doc ih =>
    simp only [mem_cons, forall_eq_or_imp] at h
    rw [document, printDocument, flatMap_cons, statement_print h.1]
    have ih := ih h.2
    rw [printDocument] at ih
    simp [document_line, ih]

theorem document_print_quote :
    document ['a', ':', '"', '\\', '"', '"', '\n'] = some [[⟨['a'], ['"']⟩]] := by
  apply document_print [[⟨['a'], ['"']⟩]]
  simp only [mem_singleton, forall_eq]
  refine ⟨by decide, ?_, by decide⟩
  simp only [mem_singleton, forall_eq]
  constructor <;> simp [isspace, inKey, eof]

/-- The last call of `statement`, which finds none, leaves this of the file. -/
def Ends (input rest : Input) : Prop :=
  ∃ last, Relation.ReflTransGen Next input last ∧ statement last = some (none, rest)

/-- Whether a value begins here. It may be missing if the file ends here, too. -/
def hasValue (quoted : Bool) : Input → Bool
  | [] => true
  | '"' :: rest => hasValue (!quoted) rest
  | '\\' :: rest => rest.head? ≠ some eof
  | c :: _ => c ≠ eof && (quoted || !isspace c)

/-- Whether the text is empty or begins with a key, a colon and a value, or ends within them. -/
def wellFormed (lines : Input) : Bool :=
  match lines.dropWhile inKey with
  | [] => true
  | c :: rest => c = ':' && current lines ≠ ':' && hasValue false (skipBlanks rest)

theorem valueFrom_eq_nil_iff (quoted : Bool) (input : Input) :
    ((valueFrom quoted false input).1 = [] → (valueFrom quoted false input).2 = []) ↔
      hasValue quoted input := by
  fun_induction hasValue quoted input with
  | case1 => simp [valueFrom]
  | case2 quoted rest ih => simpa [valueFrom, eof] using ih
  | case3 quoted rest =>
    cases rest with
    | nil => simp [valueFrom, eof]
    | cons c rest => by_cases hEof : c = eof <;> simp_all [valueFrom, eof]
  | case4 quoted c rest hQuote hSlash =>
    have hNot : c ≠ '"' ∧ c ≠ '\\' := ⟨fun h => hQuote h, fun h => hSlash h⟩
    by_cases hEof : c = eof
    · simp [valueFrom, hEof]
    · by_cases hSpace : isspace c <;> cases quoted <;> simp [valueFrom, hEof, hNot, hSpace]

theorem skipLines_head (h : skipLines input = some rest) : isspace (current rest) = false := by
  fun_induction skipLines input with
  | case1 => cases h
  | case2 input _ middle _ ih => exact ih h
  | case3 input _ _ ih => exact ih h
  | case4 input _ hSpace =>
    cases h
    exact Bool.eq_false_iff.mpr hSpace

/-- Where a pair is missing the file is at its end just if the text is well formed. -/
theorem pair_eq_none_iff {lines : Input} (hHead : isspace (current lines) = false) :
    ((pair lines).1 = none → (pair lines).2 = []) ↔ wellFormed lines := by
  have hKey : key lines = (lines.takeWhile inKey, lines.dropWhile inKey) := by
    rw [key, skipBlanks_of_head hHead]
  have hAppend : lines.takeWhile inKey ++ lines.dropWhile inKey = lines :=
    takeWhile_append_dropWhile
  have hName : ∀ c ∈ lines.takeWhile inKey, inKey c := all_eq_true.mp all_takeWhile
  have hStop := @List.head_dropWhile_not _ inKey lines
  simp only [pair, hKey, wellFormed]
  generalize lines.takeWhile inKey = name at *
  generalize lines.dropWhile inKey = left at *
  cases left with
  | nil =>
    have hEof : eof ≠ ':' := by decide
    by_cases hNone : name = [] <;> simp [hNone, hEof, current, value, skipBlanks, valueFrom]
  | cons c rest =>
    have hStop : inKey c = false := hStop (by simp)
    cases name with
    | nil => simp [← hAppend, current]
    | cons first name =>
      have hFirst : first ≠ ':' := by
        rintro rfl
        exact absurd (hName ':' (by simp)) (by decide)
      by_cases hColon : c = ':'
      · have hValue := valueFrom_eq_nil_iff false (skipBlanks rest)
        by_cases hNone : (value rest).1 = [] <;>
          simp_all [← hAppend, current, value]
      · have hValue : value (c :: rest) = ([], c :: rest) := by
          obtain rfl | rfl : c = '\n' ∨ c = eof := by
            simp [inKey, hColon] at hStop
            tauto
          · simp [value, skipBlanks, valueFrom, isspace, eof]
          · simp [value, skipBlanks, valueFrom, isspace, eof]
        simp [current, hColon, hValue]

theorem statement_eq_none_iff {parsed : Option LsStatement}
    (h : statement input = some (parsed, rest)) :
    (∀ lines, skipLines input = some lines → wellFormed lines) ↔ (parsed = none → rest = []) := by
  cases hLines : skipLines input with
  | none => simp [statement, hLines] at h
  | some lines =>
    simp only [Option.some.injEq, forall_eq']
    rw [← pair_eq_none_iff (skipLines_head hLines)]
    rw [statement, hLines, Option.bind_eq_bind, Option.bind_some, pairs] at h
    generalize pair lines = first at h ⊢
    obtain ⟨_ | p, left⟩ := first
    · simp at h
      simp [← h]
    · obtain ⟨ps, rest', hPairs, -⟩ := exists_pairs left
      simp [hPairs] at h
      simp [← h]

theorem ends_iff : Ends input rest ↔
    statement input = some (none, rest) ∨ ∃ next, Next input next ∧ Ends next rest := by
  constructor
  · rintro ⟨last, hReach, hLast⟩
    obtain rfl | ⟨next, hFirst, hReach⟩ := hReach.cases_head
    · exact .inl hLast
    · exact .inr ⟨next, hFirst, last, hReach, hLast⟩
  · rintro (hLast | ⟨next, hFirst, last, hReach, hLast⟩)
    · exact ⟨input, .refl, hLast⟩
    · exact ⟨last, .head hFirst hReach, hLast⟩

/-- A document that is returned has been read to the end of the file just if the text is well
formed wherever a statement begins. -/
theorem document_reads_all_iff (input : Input) (h : (document input).isSome) :
    Ends input [] ↔ ∀ place, Relation.ReflTransGen Next input place →
      ∀ lines, skipLines place = some lines → wellFormed lines := by
  induction hLength : input.length using Nat.strongRecOn generalizing input with
  | _ n ih =>
    rw [forall_reached_iff, ends_iff]
    rw [document] at h
    split at h
    · simp at h
    · next hStatement => simp [statement_eq_none_iff hStatement, Next, hStatement]
    · next s rest hStatement =>
        have hNext : Next input rest := ⟨s, hStatement⟩
        have hSome : (document rest).isSome := by
          cases hRest : document rest <;> simp_all
        have hRest := ih _ (hLength ▸ hNext.length) rest hSome rfl
        simp [statement_eq_none_iff hStatement, Next, hStatement, hRest]

/-- A key without a value ends the document in front of the statement behind it. -/
theorem document_drops_statement : document ['a', ':', '\n', 'b', ':', 'c', '\n'] = some [] ∧
      ¬Ends ['a', ':', '\n', 'b', ':', 'c', '\n'] [] := by
  have hStatement : statement ['a', ':', '\n', 'b', ':', 'c', '\n'] =
      some (none, ['\n', 'b', ':', 'c', '\n']) :=
    statement_of_head (by decide) (by decide) (by decide)
  rw [document_of_none hStatement, ends_iff]
  simp [hStatement, Next]

/-- A statement, and behind it a key, which may stay without a value at the end of the file. -/
theorem document_reads_all_statement :
    document ['a', ':', 'b', '\n', 'c'] = some [[⟨['a'], ['b']⟩]] ∧
      Ends ['a', ':', 'b', '\n', 'c'] [] := by
  have hStop : pairs ['\n', 'c'] = some ([], ['\n', 'c']) := by
    rw [pairs, show pair ['\n', 'c'] = (none, ['\n', 'c']) by decide]
  have hPairs : pairs ['a', ':', 'b', '\n', 'c'] = some ([⟨['a'], ['b']⟩], ['\n', 'c']) := by
    rw [pairs, show pair ['a', ':', 'b', '\n', 'c'] = (some ⟨['a'], ['b']⟩, ['\n', 'c']) by decide]
    simp [hStop]
  have hFirst : statement ['a', ':', 'b', '\n', 'c'] = some (some [⟨['a'], ['b']⟩], ['\n', 'c']) := by
    simp [statement, skipLines_eq, current, isspace, hPairs]
  have hLast : statement ['\n', 'c'] = some (none, []) := by
    have hKey : pairs ['c'] = some ([], []) := by
      rw [pairs, show pair ['c'] = (none, []) by decide]
    simp [statement, skipLines_eq, current, isspace, hKey]
  have hDocument : document ['a', ':', 'b', '\n', 'c'] = some [[⟨['a'], ['b']⟩]] := by
    rw [document, hFirst]
    simp [document_of_none hLast]
  refine ⟨hDocument, (document_reads_all_iff _ (by rw [hDocument]; rfl)).mpr ?_⟩
  rw [forall_reached_iff]
  simp [statement_eq_none_iff hFirst, Next, hFirst, forall_reached_iff ['\n', 'c'],
    statement_eq_none_iff hLast, hLast]

end Mx.Script
