import MeetiX.Userspace.MxScript

/-! The parser of the command lines of the `mx` shell. -/
namespace Mx.Parser

open Script

structure ProgramCall where
  program : List Char
  arguments : List (List Char)
  deriving DecidableEq

def skipWhitespace (input : Input) : Input := input.dropWhile isspace

/-- The loop of `argument`. -/
def argumentFrom (instr escaped : Bool) : Input → List Char × Input
  | [] => ([], [])
  | c :: rest =>
    if c = eof then ([], c :: rest)
    else if escaped = false ∧ c = '\\' then argumentFrom instr true rest
    else if instr = false ∧ escaped = false ∧ (c = '|' ∨ c = ' ') then ([], c :: rest)
    else if c = '"' ∧ escaped = false then argumentFrom (!instr) false rest
    else (c :: (argumentFrom instr false rest).1, (argumentFrom instr false rest).2)

/-- The parameter `out` is a copy of the caller's string, so what is read is lost. -/
def argument (input : Input) : Bool × Input :=
  let rest := skipWhitespace input
  if current rest = eof ∨ current rest = '|' then (false, rest)
  else (true, (argumentFrom false false rest).2)

theorem length_argumentFrom (instr escaped : Bool) (input : Input) :
    (argumentFrom instr escaped input).2.length ≤ input.length := by
  fun_induction argumentFrom instr escaped input <;> simp_all <;> omega

variable {rest input : Input} {call : ProgramCall}

/-- An argument has at least one character. -/
theorem length_argument (h : argument input = (true, rest)) : rest.length < input.length := by
  have hSkip := (List.dropWhile_suffix (l := input) isspace).length_le
  simp only [argument, skipWhitespace] at h
  cases hStart : input.dropWhile isspace with
  | nil => simp [hStart, current] at h
  | cons c left =>
    have hSpace : isspace c = false := by
      simpa [hStart] using @List.head_dropWhile_not _ isspace input (by simp [hStart])
    have hBlank : c ≠ ' ' := by
      rintro rfl
      exact absurd hSpace (by decide)
    have hFrom := fun instr escaped => length_argumentFrom instr escaped left
    simp only [hStart, current, List.length_cons] at h hSkip
    split_ifs at h with hEnd
    · cases h
    · obtain ⟨hEof, hPipe⟩ := not_or.mp hEnd
      simp [argumentFrom, hEof, hPipe, hBlank] at h
      grind

/-- The loop of `programCall` over the arguments. -/
def arguments (arg : List Char) (input : Input) : Option (List (List Char) × Input) :=
  match _hArgument : argument input with
  | (false, rest) => some ([], rest)
  | (true, rest) => do
    let (args, rest) ← arguments arg rest
    return (arg :: args, rest)
termination_by input.length
decreasing_by exact length_argument _hArgument

def inProgram (c : Char) : Bool := c ≠ eof && c ≠ '|' && !isspace c

def programCall (input : Input) : Option (Option ProgramCall × Input) := do
  if input.takeWhile inProgram = [] then return (none, input)
  let (args, rest) ← arguments [] (input.dropWhile inProgram)
  return (some ⟨input.takeWhile inProgram, args⟩, rest)

theorem length_arguments {arg : List Char} {parsed : List (List Char) × Input}
    (h : arguments arg input = some parsed) : parsed.2.length ≤ input.length := by
  fun_induction arguments arg input generalizing parsed with
  | case1 input rest hArgument =>
    cases h
    simp only [argument] at hArgument
    split_ifs at hArgument
    · cases hArgument
      exact (List.dropWhile_suffix _).length_le
    · cases hArgument
  | case2 input rest hArgument ih =>
    obtain ⟨parsed, hNext, h⟩ := Option.bind_eq_some_iff.mp h
    cases h
    have hRest := ih hNext
    exact Nat.le_trans hRest (Nat.le_of_lt (length_argument hArgument))

/-- A call has at least one character. -/
theorem length_programCall (h : programCall (skipWhitespace input) = some (some call, rest)) :
    (skipWhitespace rest).tail.length < input.length := by
  rw [programCall] at h
  split_ifs at h with hNone
  · cases h
  · obtain ⟨parsed, hParsed, h⟩ := Option.bind_eq_some_iff.mp h
    cases h
    have hLength := congrArg List.length
      (@List.takeWhile_append_dropWhile _ inProgram (skipWhitespace input))
    have hProgram := List.length_pos_of_ne_nil hNone
    have hArguments := length_arguments hParsed
    have hRest := (List.dropWhile_suffix (l := parsed.2) isspace).length_le
    have hInput := (List.dropWhile_suffix (l := input) isspace).length_le
    simp only [skipWhitespace, List.length_append, List.length_tail] at *
    omega

/-- The calls of a line that is accepted. -/
def pipeExpression (input : Input) : Option (Option (List ProgramCall)) :=
  match _hCall : programCall (skipWhitespace input) with
  | none => none
  | some (none, _) => some none
  | some (some call, rest) =>
    if current (skipWhitespace rest) = '|' then do
      return (← pipeExpression (skipWhitespace rest).tail).map (call :: ·)
    else if current (skipWhitespace rest) = eof then some (some [call])
    else some none
termination_by input.length
decreasing_by exact length_programCall _hCall

def printArguments (args : List (List Char)) : List Char :=
  args.flatMap fun arg => ' ' :: '"' :: (escape arg ++ ['"'])

def printCall (call : ProgramCall) : List Char := call.program ++ printArguments call.arguments

def printCalls : List ProgramCall → List Char
  | [] => []
  | [call] => printCall call
  | call :: next :: calls => printCall call ++ '|' :: printCalls (next :: calls)

/-- The calls that the parser gives back as they were printed: no program has the byte
255 in its name, and all arguments are empty. -/
def Readable (calls : List ProgramCall) : Prop :=
  calls ≠ [] ∧ ∀ call ∈ calls, eof ∉ call.program ∧ ∀ arg ∈ call.arguments, arg = []

/-- The programs that the parser returns are free of the byte 255, and the arguments are empty. -/
theorem readable_of_parsed {calls : List ProgramCall}
    (h : pipeExpression input = some (some calls)) : Readable calls := by
  have hArguments : ∀ input parsed, arguments [] input = some parsed →
      ∀ arg ∈ parsed.1, arg = [] := by
    intro input parsed h
    fun_induction arguments [] input generalizing parsed with
    | case1 =>
      cases h
      simp
    | case2 input rest _ ih =>
      obtain ⟨parsed, hNext, h⟩ := Option.bind_eq_some_iff.mp h
      cases h
      simpa using ih _ hNext
  have hCall : ∀ input call rest, programCall input = some (some call, rest) →
      eof ∉ call.program ∧ ∀ arg ∈ call.arguments, arg = [] := by
    intro input call rest h
    rw [programCall] at h
    split_ifs at h
    · cases h
    · obtain ⟨parsed, hParsed, h⟩ := Option.bind_eq_some_iff.mp h
      cases h
      refine ⟨fun hMem => ?_, hArguments _ _ hParsed⟩
      have hIn := List.all_eq_true.mp List.all_takeWhile _ hMem
      simp [inProgram] at hIn
  fun_induction pipeExpression input generalizing calls with
  | case1 => cases h
  | case2 => cases h
  | case3 input call rest hFirst _ ih =>
    obtain ⟨parsed, hNext, h⟩ := Option.bind_eq_some_iff.mp h
    cases parsed with
    | none => cases h
    | some others =>
      cases h
      exact ⟨by simp, List.forall_mem_cons.mpr ⟨hCall _ _ _ hFirst, (ih hNext).2⟩⟩
  | case4 input call rest hFirst =>
    cases h
    simpa [Readable] using hCall _ _ _ hFirst
  | case5 => cases h

/-- What may stand behind a call. -/
def Ends (rest : Input) : Prop := rest = [] ∨ ∃ line, rest = '|' :: line

theorem Ends.argument (h : Ends rest) : argument rest = (false, rest) := by
  rcases h with rfl | ⟨line, rfl⟩
  · rfl
  · simp [Parser.argument, skipWhitespace, isspace, current]

/-- Neither a program nor an unquoted argument goes on behind its end. -/
theorem Ends.stops (h : Ends rest) (args : List (List Char)) :
    (printArguments args ++ rest).takeWhile inProgram = [] ∧
    (printArguments args ++ rest).dropWhile inProgram = printArguments args ++ rest ∧
    (argumentFrom false false (printArguments args ++ rest)).2 = printArguments args ++ rest := by
  rcases h with rfl | ⟨line, rfl⟩ <;> cases args <;>
    simp [printArguments, inProgram, argumentFrom, isspace, eof]

theorem arguments_print {args : List (List Char)} (h : ∀ arg ∈ args, arg = [])
    (hRest : Ends rest) : arguments [] (printArguments args ++ rest) = some (args, rest) := by
  induction args with
  | nil =>
    rw [arguments, printArguments, List.flatMap_nil, List.nil_append, hRest.argument]
  | cons arg args ih =>
    obtain ⟨rfl, hArgs⟩ := List.forall_mem_cons.mp h
    have hArgument : argument (printArguments ([] :: args) ++ rest) =
        (true, printArguments args ++ rest) := by
      have hStops := (hRest.stops args).2.2
      simp only [printArguments, List.flatMap_cons, escape] at hStops ⊢
      simp [argument, skipWhitespace, isspace, current, argumentFrom, hStops, eof]
    rw [arguments, hArgument]
    simp [ih hArgs]

theorem programCall_print (hProgram : call.program ≠ [])
    (hIn : ∀ c ∈ call.program, inProgram c) (hArguments : ∀ arg ∈ call.arguments, arg = [])
    (hRest : Ends rest) :
    programCall (skipWhitespace (printCall call ++ rest)) = some (some call, rest) := by
  obtain ⟨hTake, hDrop, -⟩ := hRest.stops call.arguments
  have hSkip : skipWhitespace (printCall call ++ rest) = printCall call ++ rest := by
    obtain ⟨c, program, hCons⟩ := List.exists_cons_of_ne_nil hProgram
    have hFirst := hIn c (by simp [hCons])
    simp [inProgram] at hFirst
    simp [printCall, skipWhitespace, hCons, hFirst]
  rw [hSkip, programCall, printCall, List.append_assoc, List.takeWhile_append_of_pos hIn,
    List.dropWhile_append_of_pos hIn, hTake, hDrop, arguments_print hArguments hRest]
  simp [hProgram]

/-- A line that is printed from calls is read as these calls just when no argument of theirs
would have to be read. -/
theorem pipeExpression_print_iff (calls : List ProgramCall) (hPrograms : ∀ call ∈ calls,
      call.program ≠ [] ∧ ∀ c ∈ call.program, isspace c = false ∧ c ≠ '|') :
    pipeExpression (printCalls calls) = some (some calls) ↔ Readable calls := by
  refine ⟨readable_of_parsed, ?_⟩
  rintro ⟨hNe, hReadable⟩
  induction calls with
  | nil => exact absurd rfl hNe
  | cons call calls ih =>
    obtain ⟨⟨hProgram, hChars⟩, hPrograms⟩ := List.forall_mem_cons.mp hPrograms
    obtain ⟨⟨hEof, hEmpty⟩, hReadable⟩ := List.forall_mem_cons.mp hReadable
    have hIn : ∀ c ∈ call.program, inProgram c := by
      intro c hc
      have hNot : c ≠ eof := fun hEq => hEof (hEq ▸ hc)
      simp [inProgram, hNot, hChars c hc]
    cases calls with
    | nil =>
      have hCall := programCall_print hProgram hIn hEmpty (.inl rfl)
      rw [List.append_nil] at hCall
      rw [printCalls, pipeExpression, hCall]
      rfl
    | cons next calls =>
      rw [printCalls, pipeExpression, programCall_print hProgram hIn hEmpty (.inr ⟨_, rfl⟩)]
      simp [skipWhitespace, isspace, current, ih hPrograms (by simp) hReadable]

theorem pipeExpression_print_iff_two :
    pipeExpression ['a', ' ', '"', '"', '|', 'b'] = some (some [⟨['a'], [[]]⟩, ⟨['b'], []⟩]) :=
  (pipeExpression_print_iff [⟨['a'], [[]]⟩, ⟨['b'], []⟩] (by simp [isspace])).mpr ⟨by decide, by decide⟩

/-- The argument of `a "b"` is lost. -/
theorem pipeExpression_loses_argument :
    pipeExpression (printCalls [⟨['a'], [['b']]⟩]) ≠ some (some [⟨['a'], [['b']]⟩]) := by
  intro h
  exact absurd (readable_of_parsed h).2 (by decide)

end Mx.Parser
