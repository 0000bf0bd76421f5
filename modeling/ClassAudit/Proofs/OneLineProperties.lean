import ClassAudit.Proofs.ArgumentLimitProperties
import ClassAudit.Proofs.ClassTextProperties
import ClassAudit.Report.Basic

/-!
# Texts on one line

Numerals, quoted texts and what a message says about a failed lookup or a flawed descriptor
stay on one line, whatever they are made of. A violation leaves its line only through the name
of its method, and through the descriptor that the rule against void methods shows as it is.
-/

set_option autoImplicit false

namespace ClassAudit

/-- A text without a line feed. -/
def OneLine (text : Bytes) : Prop := 0x0A ∉ text

instance (text : Bytes) : Decidable (OneLine text) := inferInstanceAs (Decidable (0x0A ∉ text))

@[simp] theorem oneLine_append {left right : Bytes} :
    OneLine (left ++ right) ↔ OneLine left ∧ OneLine right := by
  rw [OneLine, List.mem_append, not_or]
  rfl

@[simp] theorem oneLine_cons {byte : UInt8} {rest : Bytes} :
    OneLine (byte :: rest) ↔ byte ≠ 0x0A ∧ OneLine rest := by
  rw [OneLine, List.mem_cons, not_or]
  exact and_congr_left fun _ => ne_comm

theorem oneLine_nil : OneLine [] := List.not_mem_nil

/-! ## Numerals -/

@[simp] theorem oneLine_decimal (value : Nat) : OneLine (decimal value) := by
  intro member
  rcases List.mem_append.mp member with padding | digits
  · cases List.eq_of_mem_replicate padding
  · obtain ⟨char, listed, feed⟩ := List.mem_map.mp digits
    have digit := Nat.isDigit_of_mem_toDigits (by decide) (by decide) listed
    simp only [Char.isDigit, Bool.and_eq_true, decide_eq_true_eq, ge_iff_le,
      UInt32.le_iff_toNat_le] at digit
    change 48 ≤ char.toNat ∧ char.toNat ≤ 57 at digit
    have small : char.toNat < UInt8.size := by
      change char.toNat < 256
      omega
    have kept : (Bytes.ofChar char).toNat = char.toNat := UInt8.toNat_ofNat_of_lt small
    rw [feed] at kept
    change 10 = char.toNat at kept
    omega

@[simp] theorem oneLine_signedDecimal (value : Int) : OneLine (signedDecimal value) := by
  unfold signedDecimal
  split
  · exact oneLine_cons.mpr ⟨by decide, oneLine_decimal _⟩
  · exact oneLine_decimal _

@[simp] theorem oneLine_hexPadded (width value : Nat) : OneLine (hexPadded width value) := by
  intro member
  obtain ⟨digit, small, feed⟩ := mem_hexPadded member
  have apart : ∀ digit < 16, hexDigit digit ≠ 0x0A := by decide
  exact apart digit small feed.symm

/-! ## Quoted texts -/

theorem ne_lineFeed_of_toNat {byte : UInt8} (apart : byte.toNat ≠ 0x0A) : byte ≠ 0x0A := by
  rintro rfl
  exact apart rfl

/-- Only the line feed has one in its UTF-8 form. -/
theorem oneLine_utf8EncodeChar {char : Char} (apart : char.toNat ≠ 0x0A) :
    OneLine (String.utf8EncodeChar char) := by
  obtain ⟨first, more, shape, starts⟩ := startsWithChar_encoded char []
  rw [shape]
  rw [List.append_nil] at starts
  generalize size : more.length = taken at starts
  -- The lead byte is the character itself or lies above ASCII, as do the bytes behind it.
  cases starts with
  | one lead code =>
      rw [List.eq_nil_of_length_eq_zero size]
      exact oneLine_cons.mpr ⟨ne_lineFeed_of_toNat (code ▸ apart), oneLine_nil⟩
  | two lead continued =>
      rw [List.length_cons, Nat.add_eq_right, List.length_eq_zero_iff] at size
      simp only [size, oneLine_cons]
      exact ⟨ne_lineFeed_of_toNat (by omega), ne_lineFeed_of_toNat (by omega), oneLine_nil⟩
  | three lead continued =>
      rw [List.length_cons, List.length_cons, Nat.add_assoc, Nat.add_eq_right,
        List.length_eq_zero_iff] at size
      simp only [size, oneLine_cons]
      exact ⟨ne_lineFeed_of_toNat (by omega), ne_lineFeed_of_toNat (by omega),
        ne_lineFeed_of_toNat (by omega), oneLine_nil⟩
  | four lead continued =>
      rw [List.length_cons, List.length_cons, List.length_cons, Nat.add_assoc, Nat.add_assoc,
        Nat.add_eq_right, List.length_eq_zero_iff] at size
      simp only [size, oneLine_cons]
      exact ⟨ne_lineFeed_of_toNat (by omega), ne_lineFeed_of_toNat (by omega),
        ne_lineFeed_of_toNat (by omega), ne_lineFeed_of_toNat (by omega), oneLine_nil⟩

theorem shortEscape?_ne_lineFeed {code : Nat} {letter : Char}
    (found : shortEscape? code = some letter) : Bytes.ofChar letter ≠ 0x0A := by
  unfold shortEscape? at found
  split at found <;> cases found <;> decide

theorem oneLine_quotedChar {delimiter : Char} (safe : delimiter.toNat ≠ 0x0A) (char : Char) :
    OneLine (quotedChar delimiter char) := by
  simp only [quotedChar]
  split
  · rename_i special
    refine oneLine_cons.mpr ⟨by decide, oneLine_utf8EncodeChar ?_⟩
    rw [Bool.or_eq_true, decide_eq_true_eq, decide_eq_true_eq] at special
    rcases special with rfl | rfl
    · exact safe
    · decide
  · split
    · rename_i printable
      refine oneLine_utf8EncodeChar ?_
      intro feed
      rw [feed] at printable
      exact absurd printable (by decide +kernel)
    · cases escaped : shortEscape? char.toNat with
      | some letter =>
          exact oneLine_cons.mpr ⟨by decide,
            oneLine_cons.mpr ⟨shortEscape?_ne_lineFeed escaped, oneLine_nil⟩⟩
      | none =>
          dsimp only
          split
          · exact oneLine_append.mpr ⟨by decide, oneLine_hexPadded _ _⟩
          · split
            · exact oneLine_append.mpr ⟨by decide, oneLine_hexPadded _ _⟩
            · exact oneLine_append.mpr ⟨by decide, oneLine_hexPadded _ _⟩

@[simp] theorem oneLine_quoted (text : Bytes) : OneLine (quoted text) := by
  have inside : OneLine ((runes text).flatMap (quotedRune '"')) := by
    intro member
    obtain ⟨rune, -, written⟩ := List.mem_flatMap.mp member
    cases rune with
    | char char => exact oneLine_quotedChar (by decide) char written
    | stray byte =>
        exact oneLine_append.mpr ⟨by decide, oneLine_hexPadded 2 byte.toNat⟩ written
  exact oneLine_append.mpr ⟨oneLine_append.mpr ⟨by decide, inside⟩, by decide⟩

@[simp] theorem oneLine_quotedByte (byte : UInt8) : OneLine (quotedByte byte) :=
  oneLine_append.mpr ⟨oneLine_append.mpr ⟨by decide, oneLine_quotedChar (by decide) _⟩, by decide⟩

/-! ## Messages -/

@[simp] theorem oneLine_tagName (tag : Tag) : OneLine tag.name := by
  cases tag <;> decide

@[simp] theorem oneLine_faultKindName (kind : FaultKind) : OneLine kind.name := by
  cases kind <;> decide

@[simp] theorem oneLine_ruleName (kind : RuleKind) : OneLine kind.name := by
  cases kind with
  | noBinaryInNames | tooManyArguments | checkNoVoid => decide
  | unknown number =>
      simp only [RuleKind.name, oneLine_append, oneLine_signedDecimal]
      decide

@[simp] theorem oneLine_ruleKey (kind : RuleKind) : OneLine kind.key := by
  cases kind with
  | noBinaryInNames | tooManyArguments | checkNoVoid => decide
  | unknown number =>
      simp only [RuleKind.key, oneLine_append, oneLine_signedDecimal]
      decide

theorem Fault.oneLine_summary {kind : FaultKind} {message : Bytes} {inner : Fault}
    (outer : OneLine message) (within : OneLine inner.message) :
    OneLine (Fault.classifiedBy kind message inner).summary := by
  simp only [Fault.summary, Fault.classification?, Fault.message]
  split
  · exact within
  · exact outer

theorem LookupError.oneLine_summary (reason : LookupError) : OneLine reason.toFault.summary := by
  cases reason with
  | outOfRange index count =>
      refine Fault.oneLine_summary ?_ (by decide)
      simp only [oneLine_append, oneLine_decimal]
      decide
  | upperHalf index owner? =>
      refine Fault.oneLine_summary ?_ (by decide)
      have owner : OneLine ((owner?.map Tag.name).getD "Unknown(0)") := by
        cases owner? with
        | none => decide
        | some tag => exact oneLine_tagName tag
      simp only [oneLine_append, oneLine_decimal, owner]
      decide
  | wrongKind index found wanted =>
      refine Fault.oneLine_summary ?_ (by decide)
      simp only [oneLine_append, oneLine_decimal, oneLine_tagName]
      decide

theorem DescriptorFlaw.oneLine_text (flaw : DescriptorFlaw) : OneLine flaw.text := by
  cases flaw with
  | noOpening | noClosing | noReturn | openArray => decide
  | trailing | unterminatedClass | emptyClass | unexpected =>
      simp only [DescriptorFlaw.text, oneLine_append, oneLine_decimal, oneLine_quotedByte]
      decide

theorem DescriptorError.oneLine_message (error : DescriptorError) :
    OneLine error.toFault.message := by
  simp only [DescriptorError.toFault, Fault.message, oneLine_append, oneLine_quoted,
    error.flaw.oneLine_text]
  decide

/-! ## Violations -/

/-- A violation whose texts are on one line. -/
def Violation.OnOneLine (violation : Violation) : Prop :=
  OneLine violation.method ∧ OneLine violation.message

/-- What a rule shows of a method as it is, when the method violates it, is on one line: the name,
and for the rule against void methods the descriptor too. -/
def Rule.ShowsOneLine (rule : Rule) (file : ClassFile) (method : Method) : Prop :=
  ∀ name, file.pool.utf8 method.name = .ok name →
    OneLine name ∧ (rule.kind = .checkNoVoid →
      ∀ text, file.pool.utf8 method.descriptor = .ok text → OneLine text)

/-- What the violation of a rule by a method shows. -/
inductive Rule.Reports (rule : Rule) (file : ClassFile) (method : Method) :
    Violation → Prop where
  | unnamed {reason : LookupError} {violation : Violation}
      (failed : file.pool.utf8 method.name = .error reason)
      (shown : violation.OnOneLine) : Rule.Reports rule file method violation
  | named {name : Bytes} {violation : Violation} (named : file.pool.utf8 method.name = .ok name)
      (shown : violation.method = name) (message : OneLine violation.message)
      (other : rule.kind = .checkNoVoid →
        ∀ text, file.pool.utf8 method.descriptor = .ok text → False) :
      Rule.Reports rule file method violation
  | void {name text : Bytes} {kind : FaultKind} (void : rule.kind = .checkNoVoid)
      (named : file.pool.utf8 method.name = .ok name)
      (described : file.pool.utf8 method.descriptor = .ok text) :
      Rule.Reports rule file method ⟨name, "method " ++ name ++ text ++ " returns void", kind⟩

theorem Rule.reports_of_lookup {rule : Rule} {file : ClassFile} {method : Method} {name : Bytes}
    {reason : LookupError} (named : file.pool.utf8 method.name = .ok name)
    (failed : file.pool.utf8 method.descriptor = .error reason) :
    rule.Reports file method (reason.violation name) := by
  refine .named named rfl reason.oneLine_summary ?_
  intro _ text described
  cases failed.symm.trans described

theorem Rule.reports_of_argument {limit : UInt8} {file : ClassFile} {method : Method}
    {name : Bytes} {violation : Violation} (named : file.pool.utf8 method.name = .ok name)
    (reported : argumentViolation? limit file method = some violation) :
    (Rule.mk .tooManyArguments limit).Reports file method violation := by
  cases described : file.pool.utf8 method.descriptor with
  | error reason =>
      cases (argumentViolation?_of_undescribed limit named described).symm.trans reported
      exact Rule.reports_of_lookup named described
  | ok text =>
      cases parsed : MethodDescriptor.parse text with
      | error reason =>
          cases (argumentViolation?_of_invalid limit (file.methodName_of_ok named) described
            parsed).symm.trans reported
          refine .named named rfl reason.oneLine_message ?_
          intro void
          cases void
      | ok descriptor =>
          rw [argumentViolation?_of_parsed limit
            (ClassFile.resolveMethod_eq_ok_iff.mpr ⟨named, described⟩) parsed] at reported
          split at reported
          · cases reported
            refine .named named rfl ?_ ?_
            · simp only [excessViolation, oneLine_append, oneLine_decimal]
              decide
            · intro void
              cases void
          · cases reported

theorem Rule.reports_of_void {param : UInt8} {file : ClassFile} {method : Method}
    {name : Bytes} {violation : Violation} (named : file.pool.utf8 method.name = .ok name)
    (reported : voidViolation? file method = some violation) :
    (Rule.mk .checkNoVoid param).Reports file method violation := by
  cases described : file.pool.utf8 method.descriptor with
  | error reason =>
      rw [voidViolation?_of_undescribed named described] at reported
      split at reported
      · cases reported
      · cases reported
        exact Rule.reports_of_lookup named described
  | ok text =>
      rw [voidViolation?_of_whole named described] at reported
      split at reported
      · cases reported
        exact .void rfl named described
      · cases reported

theorem Rule.reports_of_violation? {rule : Rule} {file : ClassFile} {method : Method}
    {violation : Violation} (reported : rule.violation? file method = some violation) :
    rule.Reports file method violation := by
  obtain ⟨kind, param⟩ := rule
  cases naming : file.pool.utf8 method.name with
  | error reason =>
      have listed : kind ∈ RuleKind.catalog := by
        cases kind with
        | noBinaryInNames | tooManyArguments | checkNoVoid => decide
        | unknown number => cases reported
      cases (Rule.violation?_of_unnamed ⟨kind, param⟩ listed naming).symm.trans reported
      exact .unnamed naming ⟨(by decide : OneLine noMethodName), reason.oneLine_summary⟩
  | ok name =>
      cases kind with
      | noBinaryInNames =>
          have judged := (binaryNameViolation?_of_named naming).symm.trans reported
          split at judged
          · cases judged
            refine .named naming rfl ?_ ?_
            · simp only [oneLine_append, oneLine_quoted]
              decide
            · intro void
              cases void
          · cases judged
      | tooManyArguments => exact Rule.reports_of_argument naming reported
      | checkNoVoid => exact Rule.reports_of_void naming reported
      | unknown number => cases reported

/-- The violation by a method is on one line exactly when what the rule shows as it is is. -/
theorem Rule.Reports.onOneLine_iff {rule : Rule} {file : ClassFile} {method : Method}
    {violation : Violation} (reports : rule.Reports file method violation) :
    violation.OnOneLine ↔ rule.ShowsOneLine file method := by
  cases reports with
  | unnamed failed shown =>
      refine ⟨fun _ name named => ?_, fun _ => shown⟩
      cases failed.symm.trans named
  | @named name _ named shown message other =>
      constructor
      · intro onLine other' named'
        cases named.symm.trans named'
        exact ⟨shown ▸ onLine.1, fun void text described => (other void text described).elim⟩
      · intro shows
        exact ⟨shown ▸ (shows name named).1, message⟩
  | @void name text kind void named described =>
      constructor
      · intro onLine other named'
        cases named.symm.trans named'
        refine ⟨onLine.1, fun _ text' described' => ?_⟩
        cases described.symm.trans described'
        exact (oneLine_append.mp (oneLine_append.mp onLine.2).1).2
      · intro shows
        obtain ⟨nameLine, textLine⟩ := shows name named
        refine ⟨nameLine, ?_⟩
        simp only [oneLine_append, nameLine, textLine void text described]
        decide

end ClassAudit
