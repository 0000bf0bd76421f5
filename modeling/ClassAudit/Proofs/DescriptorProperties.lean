import ClassAudit.Proofs.ReaderProperties
import Mathlib.Data.List.TakeWhile

/-!
# Properties of descriptors

Reading a descriptor is the inverse of writing it. Each reader comes with two lemmas: it
takes back what was written, with anything behind it, and what it takes was written.
-/

set_option autoImplicit false

namespace ClassAudit

/-! ## Element types -/

theorem isPrimitive_iff (base : UInt8) : isPrimitive base = true ↔ base ∈ primitiveLetters := by
  have table : ∀ value < 256,
      isPrimitive (UInt8.ofNat value) = true ↔ UInt8.ofNat value ∈ primitiveLetters := by
    decide +kernel
  have known := table base.toNat base.toNat_lt
  rwa [UInt8.ofNat_toNat] at known

theorem takeWhile_until {α : Type} {test : α → Bool} {before : List α} (stop : α) (rest : List α)
    (passes : ∀ item ∈ before, test item = true) (stops : test stop = false) :
    (before ++ stop :: rest).takeWhile test = before := by
  rw [List.takeWhile_append_of_pos passes, List.takeWhile_cons_of_neg (by simp [stops]),
    List.append_nil]

theorem dropWhile_until {α : Type} {test : α → Bool} {before : List α} (stop : α) (rest : List α)
    (passes : ∀ item ∈ before, test item = true) (stops : test stop = false) :
    (before ++ stop :: rest).dropWhile test = stop :: rest := by
  rw [List.dropWhile_append_of_pos passes, List.dropWhile_cons_of_neg (by simp [stops])]

theorem readElement_print {element : ElementType} (valid : element.IsField) (position : Nat)
    (rest : Bytes) : readElement position (element.print ++ rest) = .ok (element, rest) := by
  cases element with
  | letter base =>
      have primitive : isPrimitive base = true := (isPrimitive_iff base).mpr valid
      simp [ElementType.print, readElement, primitive]
  | object name =>
      obtain ⟨nonempty, closed⟩ := valid
      have inside : ∀ byte ∈ name, (byte != 0x3B) = true := by
        intro byte member
        simp only [bne_iff_ne, ne_eq]
        rintro rfl
        exact closed member
      have taken := takeWhile_until 0x3B rest inside rfl
      have dropped := dropWhile_until 0x3B rest inside rfl
      have noPrimitive : isPrimitive 0x4C = false := by decide
      simp [ElementType.print, readElement, noPrimitive, taken, dropped, nonempty]

theorem readElement_eq_ok {position : Nat} {text rest : Bytes} {element : ElementType}
    (read : readElement position text = .ok (element, rest)) :
    element.IsField ∧ text = element.print ++ rest := by
  cases text with
  | nil => cases read
  | cons first tail =>
      simp only [readElement] at read
      by_cases primitive : isPrimitive first = true
      · rw [if_pos primitive] at read
        cases read
        exact ⟨(isPrimitive_iff first).mp primitive, rfl⟩
      · rw [if_neg primitive] at read
        by_cases object : first = 0x4C
        · rw [if_pos object] at read
          have halves : tail.takeWhile (· != 0x3B) ++ tail.dropWhile (· != 0x3B) = tail :=
            List.takeWhile_append_dropWhile
          cases dropped : tail.dropWhile (· != 0x3B) with
          | nil =>
              rw [dropped] at read
              cases read
          | cons separator after =>
              have closing : separator = 0x3B := by
                have stopped := List.head?_dropWhile_not (· != (0x3B : UInt8)) tail
                simpa [dropped] using stopped
              rw [dropped] at read
              by_cases empty : tail.takeWhile (· != 0x3B) = []
              · simp only [empty, ↓reduceIte] at read
                cases read
              · simp only [empty, ↓reduceIte] at read
                cases read
                refine ⟨⟨empty, ?_⟩, ?_⟩
                · intro member
                  simpa using List.mem_takeWhile_imp member
                · rw [dropped, closing] at halves
                  simp [ElementType.print, object, halves]
        · rw [if_neg object] at read
          cases read

/-! ## Types -/

theorem ElementType.IsField.print_eq_cons {element : ElementType} (valid : element.IsField) :
    ∃ first rest, element.print = first :: rest ∧ first ≠ 0x5B ∧ first ≠ 0x29 ∧ first ≠ 0x56 := by
  cases element with
  | letter base =>
      have letters : primitiveLetters.all
          (fun letter => letter != 0x5B && (letter != 0x29 && letter != 0x56)) = true := by decide
      have apart := List.all_eq_true.mp letters base valid
      simp only [Bool.and_eq_true, bne_iff_ne] at apart
      exact ⟨base, [], rfl, apart⟩
  | object name => exact ⟨0x4C, name ++ [0x3B], rfl, by decide⟩

/-- What a field type starts with neither closes the parameters nor means void. -/
theorem TypeDescriptor.IsField.print_eq_cons {type : TypeDescriptor} (valid : type.IsField) :
    ∃ first rest, type.print = first :: rest ∧ first ≠ 0x29 ∧ first ≠ 0x56 := by
  obtain ⟨dims, element⟩ := type
  cases dims with
  | zero =>
      obtain ⟨first, rest, printed, -, apart⟩ := ElementType.IsField.print_eq_cons valid
      exact ⟨first, rest, printed, apart⟩
  | succ dims => exact ⟨0x5B, List.replicate dims 0x5B ++ element.print, rfl, by decide⟩

theorem readType_print {type : TypeDescriptor} (valid : type.IsField) (position : Nat)
    (rest : Bytes) : readType position (type.print ++ rest) = .ok (type, rest) := by
  obtain ⟨dims, element⟩ := type
  obtain ⟨first, tail, printed, noBracket, -, -⟩ := ElementType.IsField.print_eq_cons valid
  have brackets : ∀ byte ∈ List.replicate dims (0x5B : UInt8), (byte == 0x5B) = true := by
    intro byte member
    simp [List.eq_of_mem_replicate member]
  have stops : (first == (0x5B : UInt8)) = false := by simp [noBracket]
  have shape : TypeDescriptor.print ⟨dims, element⟩ ++ rest =
      List.replicate dims 0x5B ++ first :: (tail ++ rest) := by
    simp [TypeDescriptor.print, printed]
  have inner := readElement_print valid (position + dims) rest
  rw [printed, List.cons_append] at inner
  simp only [readType, shape, takeWhile_until first (tail ++ rest) brackets stops,
    dropWhile_until first (tail ++ rest) brackets stops, List.length_replicate, inner, bind,
    Except.bind]
  rfl

theorem readType_eq_ok {position : Nat} {text rest : Bytes} {type : TypeDescriptor}
    (read : readType position text = .ok (type, rest)) :
    type.IsField ∧ text = type.print ++ rest := by
  obtain ⟨⟨element, after⟩, inner, finish⟩ := bind_eq_ok read
  cases finish
  obtain ⟨valid, shape⟩ := readElement_eq_ok inner
  refine ⟨valid, ?_⟩
  have brackets : text.takeWhile (· == 0x5B) =
      List.replicate (text.takeWhile (· == 0x5B)).length 0x5B := by
    refine List.eq_replicate_of_mem ?_
    intro byte member
    simpa using List.mem_takeWhile_imp member
  calc text = text.takeWhile (· == 0x5B) ++ text.dropWhile (· == 0x5B) :=
        List.takeWhile_append_dropWhile.symm
    _ = _ := by rw [shape, brackets]; simp [TypeDescriptor.print]

/-! ## Parameters and return types -/

theorem readParams_close (position : Nat) (rest : Bytes) (read : List TypeDescriptor) :
    readParams position (0x29 :: rest) read = .ok (read.reverse, position + 1, rest) := by
  rw [readParams, if_pos rfl]

theorem readParams_of_readType {position : Nat} {first : UInt8} {after rest : Bytes}
    {type : TypeDescriptor} (unclosed : first ≠ 0x29)
    (typed : readType position (first :: after) = .ok (type, rest)) (read : List TypeDescriptor) :
    readParams position (first :: after) read =
      readParams (position + ((first :: after).length - rest.length)) rest (type :: read) := by
  rw [readParams, if_neg unclosed]
  split
  · rename_i flaw failed
    rw [typed] at failed
    cases failed
  · rename_i other left found
    rw [typed] at found
    cases found
    rfl

theorem readParams_of_readType_error {position : Nat} {first : UInt8} {after : Bytes}
    {flaw : DescriptorFlaw} (unclosed : first ≠ 0x29)
    (failed : readType position (first :: after) = .error flaw) (read : List TypeDescriptor) :
    readParams position (first :: after) read = .error flaw := by
  rw [readParams, if_neg unclosed]
  split
  · rename_i other found
    rw [failed] at found
    cases found
    rfl
  · rename_i type left found
    rw [failed] at found
    cases found

theorem readParams_print {params : List TypeDescriptor}
    (valid : ∀ param ∈ params, param.IsField) (position : Nat) (rest : Bytes)
    (read : List TypeDescriptor) :
    ∃ after, readParams position (params.flatMap TypeDescriptor.print ++ 0x29 :: rest) read =
      .ok (read.reverse ++ params, after, rest) := by
  induction params generalizing position read with
  | nil => exact ⟨position + 1, by simp [readParams_close]⟩
  | cons param params ih =>
      have fieldType := valid param List.mem_cons_self
      have others : ∀ other ∈ params, other.IsField :=
        fun other member => valid other (List.mem_cons_of_mem param member)
      obtain ⟨first, tail, printed, unclosed, -⟩ := fieldType.print_eq_cons
      have typed := readType_print fieldType position
        (params.flatMap TypeDescriptor.print ++ 0x29 :: rest)
      rw [List.flatMap_cons, List.append_assoc]
      rw [printed, List.cons_append] at typed ⊢
      rw [readParams_of_readType unclosed typed]
      obtain ⟨after, tailRead⟩ := ih others _ (param :: read)
      exact ⟨after, by rw [tailRead]; simp⟩

theorem readParams_eq_ok {position after : Nat} {text rest : Bytes}
    {read found : List TypeDescriptor}
    (success : readParams position text read = .ok (found, after, rest)) :
    ∃ params, found = read.reverse ++ params ∧ (∀ param ∈ params, param.IsField) ∧
      text = params.flatMap TypeDescriptor.print ++ 0x29 :: rest := by
  induction position, text, read using readParams.induct with
  | case1 position read =>
      rw [readParams] at success
      cases success
  | case2 position read left =>
      rw [readParams_close] at success
      cases success
      exact ⟨[], (List.append_nil _).symm, by simp, rfl⟩
  | case3 position read first left unclosed flaw failed =>
      rw [readParams_of_readType_error unclosed failed] at success
      cases success
  | case4 position read first left unclosed type behind typed ih =>
      rw [readParams_of_readType unclosed typed] at success
      obtain ⟨params, rfl, valid, rfl⟩ := ih success
      obtain ⟨fieldType, shape⟩ := readType_eq_ok typed
      refine ⟨type :: params, by simp, ?_, ?_⟩
      · intro param member
        rcases List.mem_cons.mp member with rfl | member
        · exact fieldType
        · exact valid param member
      · rw [shape, List.flatMap_cons, List.append_assoc]

theorem readReturn_print {result : TypeDescriptor} (valid : result.IsField ∨ result = .void)
    (position : Nat) (rest : Bytes) :
    readReturn position (result.print ++ rest) = .ok (result, rest) := by
  rcases valid with fieldType | rfl
  · obtain ⟨first, tail, printed, -, noVoid⟩ := fieldType.print_eq_cons
    have typed := readType_print fieldType position rest
    rw [printed, List.cons_append] at typed ⊢
    rw [readReturn, if_neg noVoid, typed]
  · rfl

theorem readReturn_eq_ok {position : Nat} {text rest : Bytes} {result : TypeDescriptor}
    (read : readReturn position text = .ok (result, rest)) :
    (result.IsField ∨ result = .void) ∧ text = result.print ++ rest := by
  cases text with
  | nil => cases read
  | cons first tail =>
      rw [readReturn] at read
      by_cases void : first = 0x56
      · rw [if_pos void] at read
        cases read
        exact ⟨.inr rfl, by rw [void]; rfl⟩
      · rw [if_neg void] at read
        obtain ⟨fieldType, shape⟩ := readType_eq_ok read
        exact ⟨.inl fieldType, shape⟩

theorem atEnd_eq_ok_iff {α : Type} {length : Nat} {ended : α × Bytes} {value : α} :
    atEnd length ended = .ok value ↔ ended = (value, []) := by
  obtain ⟨found, rest⟩ := ended
  cases rest with
  | nil => simp [atEnd]
  | cons first tail => simp [atEnd]

/-! ## Whole descriptors -/

theorem readMethod_print {method : MethodDescriptor} (proper : method.IsProper) :
    readMethod method.print = .ok method := by
  obtain ⟨params, result⟩ := method
  obtain ⟨fieldTypes, returned⟩ := proper
  obtain ⟨after, paramsRead⟩ := readParams_print fieldTypes 1 (result.print ++ []) []
  have resultRead := readReturn_print returned after []
  rw [List.append_nil] at paramsRead resultRead
  simp only [MethodDescriptor.print, List.cons_append, List.nil_append, List.append_assoc,
    readMethod, ↓reduceIte, paramsRead, resultRead, bind, Except.bind, List.reverse_nil]
  rfl

theorem readMethod_eq_ok {text : Bytes} {method : MethodDescriptor}
    (read : readMethod text = .ok method) : method.IsProper ∧ text = method.print := by
  cases text with
  | nil => cases read
  | cons first rest =>
      rw [readMethod] at read
      by_cases opened : first = 0x28
      · rw [if_pos opened] at read
        obtain ⟨⟨params, position, left⟩, paramsRead, afterParams⟩ := bind_eq_ok read
        obtain ⟨ended, resultRead, afterResult⟩ := bind_eq_ok afterParams
        obtain ⟨result, whole, finish⟩ := bind_eq_ok afterResult
        cases finish
        rw [atEnd_eq_ok_iff] at whole
        subst whole
        obtain ⟨found, same, fieldTypes, paramsShape⟩ := readParams_eq_ok paramsRead
        obtain ⟨returned, resultShape⟩ := readReturn_eq_ok resultRead
        rw [List.reverse_nil, List.nil_append] at same
        subst same
        refine ⟨⟨fieldTypes, returned⟩, ?_⟩
        rw [paramsShape, resultShape, opened, List.append_nil]
        simp [MethodDescriptor.print]
      · rw [if_neg opened] at read
        cases read

theorem MethodDescriptor.parse_eq_ok_iff {text : Bytes} {method : MethodDescriptor} :
    MethodDescriptor.parse text = .ok method ↔ method.IsProper ∧ text = method.print := by
  rw [MethodDescriptor.parse, mapError_eq_ok_iff]
  constructor
  · exact readMethod_eq_ok
  · rintro ⟨proper, rfl⟩
    exact readMethod_print proper

theorem TypeDescriptor.parse_eq_ok_iff {text : Bytes} {type : TypeDescriptor} :
    TypeDescriptor.parse text = .ok type ↔ type.IsField ∧ text = type.print := by
  rw [TypeDescriptor.parse, mapError_eq_ok_iff]
  constructor
  · intro read
    obtain ⟨ended, typed, whole⟩ := bind_eq_ok read
    rw [atEnd_eq_ok_iff] at whole
    subst whole
    obtain ⟨fieldType, shape⟩ := readType_eq_ok typed
    exact ⟨fieldType, by rw [shape, List.append_nil]⟩
  · rintro ⟨fieldType, rfl⟩
    have typed := readType_print fieldType 0 []
    rw [List.append_nil] at typed
    rw [typed]
    rfl

theorem DescriptorError.causes_toFault (error : DescriptorError) :
    error.toFault.causes = [.invalidSyntax] := rfl

theorem paramCount_of_parse {text : Bytes} {method : MethodDescriptor}
    (parsed : MethodDescriptor.parse text = .ok method) :
    paramCount text = .ok method.params.length := by
  rw [paramCount, parsed]
  rfl

theorem paramCount_of_parse_error {text : Bytes} {error : DescriptorError}
    (failed : MethodDescriptor.parse text = .error error) : paramCount text = .error error := by
  rw [paramCount, failed]
  rfl

/-- A text parses to a descriptor exactly when it is the written form of that descriptor, and
every other text is a syntax error. So each text has one parse, and counting the parameters
counts the field types that were written between the parentheses. -/
theorem descriptor_parse_inverts_print (text : Bytes) :
    (∀ method, MethodDescriptor.parse text = .ok method ↔
      method.IsProper ∧ text = method.print) ∧
    (∀ type, TypeDescriptor.parse text = .ok type ↔ type.IsField ∧ text = type.print) ∧
    ((∀ method : MethodDescriptor, method.IsProper → text ≠ method.print) →
      ∃ error, MethodDescriptor.parse text = .error error ∧ paramCount text = .error error ∧
        error.toFault.causes = [.invalidSyntax]) ∧
    ((∀ type : TypeDescriptor, type.IsField → text ≠ type.print) →
      ∃ error, TypeDescriptor.parse text = .error error ∧
        error.toFault.causes = [.invalidSyntax]) ∧
    (∀ method : MethodDescriptor, method.IsProper → text = method.print →
      paramCount text = .ok method.params.length ∧
        ∀ other : MethodDescriptor, other.IsProper → text = other.print → other = method) ∧
    ∀ type : TypeDescriptor, type.IsField → text = type.print →
      ∀ other : TypeDescriptor, other.IsField → text = other.print → other = type := by
  refine ⟨fun _ => MethodDescriptor.parse_eq_ok_iff, fun _ => TypeDescriptor.parse_eq_ok_iff,
    ?_, ?_, ?_, ?_⟩
  · intro unwritten
    cases parsed : MethodDescriptor.parse text with
    | error error =>
        exact ⟨error, rfl, paramCount_of_parse_error parsed, error.causes_toFault⟩
    | ok method =>
        obtain ⟨proper, shape⟩ := MethodDescriptor.parse_eq_ok_iff.mp parsed
        exact absurd shape (unwritten method proper)
  · intro unwritten
    cases parsed : TypeDescriptor.parse text with
    | error error => exact ⟨error, rfl, error.causes_toFault⟩
    | ok type =>
        obtain ⟨fieldType, shape⟩ := TypeDescriptor.parse_eq_ok_iff.mp parsed
        exact absurd shape (unwritten type fieldType)
  · intro method proper shape
    have parsed := MethodDescriptor.parse_eq_ok_iff.mpr ⟨proper, shape⟩
    refine ⟨paramCount_of_parse parsed, ?_⟩
    intro other otherProper otherShape
    have again := MethodDescriptor.parse_eq_ok_iff.mpr ⟨otherProper, otherShape⟩
    exact Except.ok.inj (again.symm.trans parsed)
  · intro type fieldType shape other otherField otherShape
    have parsed := TypeDescriptor.parse_eq_ok_iff.mpr ⟨fieldType, shape⟩
    have again := TypeDescriptor.parse_eq_ok_iff.mpr ⟨otherField, otherShape⟩
    exact Except.ok.inj (again.symm.trans parsed)

/-- A method whose first parameter is an array of a class named after a descriptor. -/
def delimitedMethod : MethodDescriptor :=
  ⟨[⟨2, .object "a(I)[V"⟩, ⟨0, .letter 0x4A⟩], .void⟩

theorem descriptor_parse_inverts_print_delimited :
    delimitedMethod.IsProper ∧ Bytes.ofString "([[La(I)[V;J)V" = delimitedMethod.print ∧
      paramCount "([[La(I)[V;J)V" = .ok 2 ∧
      (∀ type : TypeDescriptor, type.IsField → Bytes.ofString "[V" ≠ type.print) ∧
      ∃ error, TypeDescriptor.parse "[V" = .error error ∧
        error.toFault.causes = [.invalidSyntax] := by
  have proper : delimitedMethod.IsProper := by decide
  have shape : Bytes.ofString "([[La(I)[V;J)V" = delimitedMethod.print := by decide
  obtain ⟨-, -, -, -, counts, -⟩ := descriptor_parse_inverts_print "([[La(I)[V;J)V"
  obtain ⟨-, reads, -, refuses, -⟩ := descriptor_parse_inverts_print "[V"
  have unwritten : ∀ type : TypeDescriptor, type.IsField → Bytes.ofString "[V" ≠ type.print := by
    intro type fieldType shape
    have parsed := (reads type).mpr ⟨fieldType, shape⟩
    have failed : TypeDescriptor.parse "[V" = .error ⟨"[V", .unexpected 0x56 1⟩ := by decide
    rw [failed] at parsed
    cases parsed
  exact ⟨proper, shape, (counts delimitedMethod proper shape).1, unwritten, refuses unwritten⟩

end ClassAudit
