import InterfaceSchema.Proofs.Text.Quoting
import InterfaceSchema.Syntax.Scan
import InterfaceSchema.Text.Hex

/-!
# What string literals stand for

A string literal stands for a row of UTF-16 code units, which its characters and
escapes give one after another. Reading a literal resolves the escapes for a tab and
a line feed and takes every other character behind a backslash for itself; writing
escapes quotes and backslashes only. Both together keep what a literal stands for,
on one line, exactly if all its escapes are a tab or a character that stands for
itself.
-/

namespace InterfaceSchema.Text

/-- The code units of a code point: the point itself or a pair of surrogates. -/
def pointUnits (point : Nat) : List Nat :=
  if point < 0x10000 then [point]
  else [0xD800 + (point - 0x10000) / 0x400, 0xDC00 + (point - 0x10000) % 0x400]

/-- The code units of a text. -/
def units (text : Text) : List Nat := text.flatMap fun c => pointUnits c.toNat

/-- What a character stands for behind a backslash, if it is one with a meaning of
its own there. -/
def singleEscape? : Char → Option Nat
  | 'b' => some 0x8
  | 't' => some 0x9
  | 'n' => some 0xA
  | 'v' => some 0xB
  | 'f' => some 0xC
  | 'r' => some 0xD
  | '"' => some 0x22
  | '\'' => some 0x27
  | '\\' => some 0x5C
  | _ => none

/-- The escapes behind a backslash and what they stand for, if this text follows. -/
inductive Escape (following : Text) : Text → List Nat → Prop
  | single {c : Char} {unit : Nat} (h : singleEscape? c = some unit) :
    Escape following [c] [unit]
  | itself {c : Char} (hsingle : singleEscape? c = none) (hdigit : c.isDigit = false)
    (hx : c ≠ 'x') (hu : c ≠ 'u') (hline : Scan.endsLine c = false) :
    Escape following [c] (pointUnits c.toNat)
  | null (h : ∀ c, following.head? = some c → c.isDigit = false) : Escape following ['0'] [0]
  | byte {digits : Text} {unit : Nat} (hlength : digits.length = 2)
    (h : hexNumber? 2 digits = some unit) : Escape following ('x' :: digits) [unit]
  | unit {digits : Text} {unit : Nat} (hlength : digits.length = 4)
    (h : hexNumber? 4 digits = some unit) : Escape following ('u' :: digits) [unit]
  | point {digits : Text} {point : Nat} (hne : digits ≠ [])
    (h : hexNumber? digits.length digits = some point) (hpoint : point ≤ 0x10FFFF) :
    Escape following ('u' :: '\x7b' :: (digits ++ ['\x7d'])) (pointUnits point)
  | line {c : Char} (hline : Scan.endsLine c = true)
    (h : c = '\r' → following.head? ≠ some '\n') : Escape following [c] []
  | lines : Escape following ['\r', '\n'] []

/-- What the inside of a literal stands for, by the quote around it. -/
inductive Means (quote : Char) : Text → List Nat → Prop
  | nil : Means quote [] []
  | plain {c : Char} {rest : Text} {value : List Nat} (hquote : c ≠ quote) (hslash : c ≠ '\\')
    (hfeed : c ≠ '\n') (hreturn : c ≠ '\r') (hrest : Means quote rest value) :
    Means quote (c :: rest) (pointUnits c.toNat ++ value)
  | escape {sequence rest : Text} {more value : List Nat} (hsequence : Escape rest sequence more)
    (hrest : Means quote rest value) : Means quote ('\\' :: (sequence ++ rest)) (more ++ value)

/-- A string literal stands for these code units. -/
def StandsFor (literal : Text) (value : List Nat) : Prop :=
  ∃ quote inside, (quote = '\'' ∨ quote = '"') ∧ literal = quote :: (inside ++ [quote]) ∧
    Means quote inside value

/-- A text without line ends. -/
def OneLine (text : Text) : Prop := ∀ c ∈ text, Scan.endsLine c = false

/-- Whether a text has line ends can be decided. -/
instance (text : Text) : Decidable (OneLine text) :=
  decidable_of_iff (text.all (fun c => !Scan.endsLine c) = true) (by simp [OneLine])

/-- What a character behind a backslash is read as. -/
def resolved (c : Char) : Char := if c = 'n' then '\n' else if c = 't' then '\t' else c

/-- Whether a character behind a backslash is read and written as what it stands
for. -/
def isKept (c : Char) : Bool :=
  !("bfnrvxu".toList.contains c || c.isDigit || Scan.endsLine c)

/-- Whether all characters inside of a literal are read and written as what they
stand for. -/
def keeps : Text → Bool
  | [] => true
  | '\\' :: c :: rest => isKept c && keeps rest
  | c :: rest => !Scan.endsLine c && keeps rest

/-- A literal that is read and written as what it stands for. -/
def Kept (literal : Text) : Prop := keeps literal.tail.dropLast = true

/-- Whether a literal is kept can be decided. -/
instance (literal : Text) : Decidable (Kept literal) :=
  inferInstanceAs (Decidable (keeps literal.tail.dropLast = true))

section Units

/-- The code units of a text are those of its parts. -/
theorem units_append (first second : Text) : units (first ++ second) = units first ++ units second :=
  List.flatMap_append

/-- The code units of a character come before those behind it. -/
theorem units_cons (c : Char) (text : Text) :
    units (c :: text) = pointUnits c.toNat ++ units text :=
  List.flatMap_cons

/-- A code point has a code unit. -/
theorem pointUnits_length_pos (point : Nat) : 0 < (pointUnits point).length := by
  rw [pointUnits]
  split <;> exact Nat.succ_pos _

/-- A code point has at most two code units. -/
theorem pointUnits_length_le (point : Nat) : (pointUnits point).length ≤ 2 := by
  rw [pointUnits]
  split <;> simp

/-- A text has a code unit for every character. -/
theorem length_le_units (text : Text) : text.length ≤ (units text).length := by
  induction text with
  | nil => exact Nat.zero_le _
  | cons c rest ih =>
    have hpos := pointUnits_length_pos c.toNat
    rw [units_cons, List.length_cons, List.length_append]
    omega

end Units

section Reading

variable {quote c : Char} {inside rest sequence tail : Text} {more value : List Nat}

/-- A character behind a backslash is read with it. -/
theorem unescape_escaped (c : Char) (rest : Text) :
    unescape ('\\' :: c :: rest) = resolved c :: unescape rest := rfl

/-- A character that is no backslash is read as it is. -/
theorem unescape_plain (hslash : c ≠ '\\') (rest : Text) :
    unescape (c :: rest) = c :: unescape rest := by
  rw [unescape.eq_4 _ _ (fun hc _ => hslash hc) fun _ _ hc _ => hslash hc]

/-- Text without backslashes is read as it is. -/
theorem unescape_append (hslash : '\\' ∉ tail) (rest : Text) :
    unescape (tail ++ rest) = tail ++ unescape rest := by
  induction tail with
  | nil => rfl
  | cons c more ih =>
    obtain ⟨hc, hmore⟩ := not_or.1 (mt List.mem_cons.2 hslash)
    rw [List.cons_append, unescape_plain (Ne.symm hc), ih hmore, List.cons_append]

/-- A backslash is no hexadecimal digit. -/
theorem slash_notMem_digits {count start number : Nat} {digits : Text}
    (h : hexNumberFrom? start count digits = some number) (hlength : digits.length = count) :
    '\\' ∉ digits := by
  induction digits generalizing count start with
  | nil => exact List.not_mem_nil
  | cons c rest ih =>
    subst hlength
    rw [List.length_cons, hexNumberFrom?] at h
    obtain ⟨digit, hdigit, hrest⟩ := Option.bind_eq_some_iff.1 h
    rw [List.mem_cons, not_or]
    refine ⟨?_, ih hrest rfl⟩
    rintro rfl
    cases hdigit

/-- An escape against what it is read as: it goes on without backslashes, has no more
code units, and has the same ones without a line end exactly if it is kept. -/
structure Compared (sequence : Text) (more : List Nat) (c : Char) (tail : Text) : Prop where
  sequence_eq : sequence = c :: tail
  slash : '\\' ∉ tail
  length_le : more.length ≤ (units (resolved c :: tail)).length
  tail_eq : isKept c = true → tail = []
  kept_iff : isKept c = true ↔ more = units (resolved c :: tail) ∧ OneLine (resolved c :: tail)

/-- An escape that is shorter than what it is read as is not kept. -/
theorem Compared.of_length (hslash : '\\' ∉ tail) (hlength : more.length ≤ tail.length)
    (hkept : isKept c = false) : Compared (c :: tail) more c tail := by
  have hunits := length_le_units (resolved c :: tail)
  rw [List.length_cons] at hunits
  refine ⟨rfl, hslash, by omega, fun h => by simp [hkept] at h, fun h => by simp [hkept] at h, ?_⟩
  rintro ⟨heq, -⟩
  rw [heq] at hlength
  omega

/-- What an escape stands for against what it is read as. -/
theorem Escape.compared (h : Escape rest sequence more) :
    ∃ c tail, Compared sequence more c tail := by
  cases h with
  | single h =>
    unfold singleEscape? at h
    split at h
    all_goals cases h
    all_goals exact ⟨_, [], rfl, List.not_mem_nil, by decide, fun _ => rfl, by decide⟩
  | @itself c hsingle hdigit hx hu hline =>
    have hne {d : Char} (hd : (singleEscape? d).isSome) : c ≠ d := by
      rintro rfl
      rw [hsingle] at hd
      cases hd
    have hresolved : resolved c = c := by
      rw [resolved, if_neg (hne rfl), if_neg (hne rfl)]
    have hunits : pointUnits c.toNat = units [c] := (List.append_nil _).symm
    have hkept : isKept c = true := by
      have hletters : "bfnrvxu".toList = ['b', 'f', 'n', 'r', 'v', 'x', 'u'] := rfl
      simp [isKept, hletters, hne (d := 'b') rfl, hne (d := 'f') rfl, hne (d := 'n') rfl,
        hne (d := 'r') rfl, hne (d := 'v') rfl, hx, hu, hdigit, hline]
    refine ⟨c, [], rfl, List.not_mem_nil, ?_, fun _ => rfl, fun _ => ?_, fun _ => hkept⟩
    · rw [hresolved, hunits]
    · rw [hresolved]
      exact ⟨hunits, by simpa [OneLine] using hline⟩
  | null _ => exact ⟨'0', [], rfl, List.not_mem_nil, by decide, fun _ => rfl, by decide⟩
  | byte hlength h =>
    exact ⟨'x', _, .of_length (slash_notMem_digits h hlength) (by simp [hlength]) rfl⟩
  | unit hlength h =>
    exact ⟨'u', _, .of_length (slash_notMem_digits h hlength) (by simp [hlength]) rfl⟩
  | @point digits point hne h _ =>
    have hslash := slash_notMem_digits h rfl
    have hlength := pointUnits_length_le point
    refine ⟨'u', _, .of_length (by simp [hslash]) ?_ rfl⟩
    simp only [List.length_cons, List.length_append]
    omega
  | line hline _ =>
    exact ⟨_, [], .of_length List.not_mem_nil (Nat.le_refl 0) (by simp [isKept, hline])⟩
  | lines => exact ⟨'\r', ['\n'], .of_length (by decide) (Nat.zero_le _) rfl⟩

/-- What a literal stands for against what it is read as: it has no more code units,
and the same ones without a line end exactly if it is kept. -/
theorem Means.compared (h : Means quote inside value) :
    value.length ≤ (units (unescape inside)).length ∧
      (keeps inside = true ↔ value = units (unescape inside) ∧ OneLine (unescape inside)) := by
  induction h with
  | nil => exact ⟨Nat.le_refl 0, by decide⟩
  | @plain c rest value hquote hslash hfeed hreturn hrest ih =>
    obtain ⟨hlength, hiff⟩ := ih
    have hkeeps : keeps (c :: rest) = (!Scan.endsLine c && keeps rest) :=
      keeps.eq_3 _ _ fun d more hc => absurd hc hslash
    rw [unescape_plain hslash, units_cons, hkeeps, Bool.and_eq_true, hiff, List.append_cancel_left_eq]
    constructor
    · simp only [List.length_append]
      omega
    · simp only [OneLine, List.forall_mem_cons, Bool.not_eq_true']
      tauto
  | @escape sequence rest more value hsequence hrest ih =>
    obtain ⟨hlength, hiff⟩ := ih
    obtain ⟨c, tail, h⟩ := hsequence.compared
    have hread : unescape ('\\' :: (sequence ++ rest)) = (resolved c :: tail) ++ unescape rest := by
      rw [h.sequence_eq, List.cons_append, unescape_escaped, unescape_append h.slash,
        List.cons_append]
    have hkeeps : keeps ('\\' :: (sequence ++ rest)) = (isKept c && keeps (tail ++ rest)) := by
      rw [h.sequence_eq]
      rfl
    have hline : OneLine ((resolved c :: tail) ++ unescape rest) ↔
        OneLine (resolved c :: tail) ∧ OneLine (unescape rest) := List.forall_mem_append
    rw [hread, units_append, hkeeps, Bool.and_eq_true, hline]
    have hfirst := h.length_le
    refine ⟨by simp only [List.length_append]; omega, fun ⟨hkept, hmore⟩ => ?_,
      fun ⟨hvalue, hone, hmore⟩ => ?_⟩
    · rw [h.tail_eq hkept, List.nil_append] at hmore
      obtain ⟨hsame, hone⟩ := h.kept_iff.1 hkept
      obtain ⟨hvalue, hlines⟩ := hiff.1 hmore
      exact ⟨by rw [hsame, hvalue], hone, hlines⟩
    · -- neither part has more code units, so that both have the same ones
      have hlengths := congrArg List.length hvalue
      rw [List.length_append, List.length_append] at hlengths
      obtain ⟨hsame, hrest⟩ := List.append_inj hvalue (by omega)
      have hkept := h.kept_iff.2 ⟨hsame, hone⟩
      rw [h.tail_eq hkept]
      exact ⟨hkept, hiff.2 ⟨hrest, hmore⟩⟩

end Reading

section Writing

variable {text : Text} {value : List Nat}

/-- Quoted text ends no line if the text does not. -/
theorem oneLine_quote_iff : OneLine (quote text) ↔ OneLine text := by
  have hquote : Scan.endsLine '\'' = false := rfl
  have hescape : OneLine (escape text) ↔ OneLine text := by
    induction text with
    | nil => rfl
    | cons c rest ih =>
      rw [escape]
      split
      · next hc =>
        have hplain : Scan.endsLine c = false := by rcases hc with rfl | rfl <;> rfl
        have hslash : Scan.endsLine '\\' = false := rfl
        simpa [OneLine, hplain, hslash] using ih
      · simpa [OneLine] using fun _ => ih
  rw [← hescape]
  simp [OneLine, quote, hquote, or_imp, forall_and]

/-- What a literal stands for from a character on. -/
theorem Means.of_cons {quote c : Char} {rest : Text} (h : Means quote (c :: rest) value) :
    (c ≠ '\\' ∧ c ≠ '\n' ∧ c ≠ '\r' ∧ ∃ tail, value = pointUnits c.toNat ++ tail ∧
      Means quote rest tail) ∨
    (c = '\\' ∧ ∃ sequence following more tail, rest = sequence ++ following ∧
      Escape following sequence more ∧ value = more ++ tail ∧ Means quote following tail) := by
  cases h with
  | plain _ hslash hfeed hreturn hrest =>
    exact .inl ⟨hslash, hfeed, hreturn, _, rfl, hrest⟩
  | escape hsequence hrest => exact .inr ⟨rfl, _, _, _, _, rfl, hsequence, rfl, hrest⟩

/-- A quote or a backslash behind a backslash stands for itself. -/
theorem Escape.eq_of_quoted {c : Char} {rest following sequence : Text} {more : List Nat}
    (hc : c = '\\' ∨ c = '\'') (h : Escape following sequence more)
    (hsequence : c :: rest = sequence ++ following) :
    rest = following ∧ more = pointUnits c.toNat := by
  have hsingle : singleEscape? c = some c.toNat := by rcases hc with rfl | rfl <;> rfl
  have hplain : pointUnits c.toNat = [c.toNat] := by rcases hc with rfl | rfl <;> rfl
  have hne : c ≠ '0' ∧ c ≠ 'x' ∧ c ≠ 'u' ∧ c ≠ '\r' ∧ Scan.endsLine c = false := by
    rcases hc with rfl | rfl <;> decide
  cases h with
  | single h =>
    obtain ⟨rfl, hrest⟩ := List.cons.inj hsequence
    rw [hsingle] at h
    rw [hplain, Option.some.inj h]
    exact ⟨hrest, rfl⟩
  | itself hnone =>
    obtain ⟨rfl, hrest⟩ := List.cons.inj hsequence
    rw [hsingle] at hnone
    cases hnone
  | null => exact absurd (List.cons.inj hsequence).1 hne.1
  | byte => exact absurd (List.cons.inj hsequence).1 hne.2.1
  | unit => exact absurd (List.cons.inj hsequence).1 hne.2.2.1
  | point => exact absurd (List.cons.inj hsequence).1 hne.2.2.1
  | line hline =>
    obtain ⟨rfl, -⟩ := List.cons.inj hsequence
    rw [hne.2.2.2.2] at hline
    cases hline
  | lines => exact absurd (List.cons.inj hsequence).1 hne.2.2.2.1

/-- Escaped text stands for the code units of the text, if it has no line feeds and no
carriage returns. -/
theorem means_escape_iff : Means '\'' (escape text) value ↔
    value = units text ∧ '\n' ∉ text ∧ '\r' ∉ text := by
  induction text generalizing value with
  | nil =>
    constructor
    · rintro ⟨⟩
      exact ⟨rfl, List.not_mem_nil, List.not_mem_nil⟩
    · rintro ⟨rfl, -, -⟩
      exact .nil
  | cons c rest ih =>
    rw [escape, units_cons, List.mem_cons, List.mem_cons, not_or, not_or]
    split
    · next hc =>
      have hsingle : Escape (escape rest) [c] (pointUnits c.toNat) := by
        rcases hc with rfl | rfl <;> exact .single rfl
      have hne : '\n' ≠ c ∧ '\r' ≠ c := by rcases hc with rfl | rfl <;> decide
      constructor
      · intro h
        obtain ⟨hslash, -⟩ | ⟨-, sequence, following, more, tail, hrest, hsequence, rfl, hmore⟩ :=
          h.of_cons
        · exact absurd rfl hslash
        · obtain ⟨rfl, rfl⟩ := hsequence.eq_of_quoted hc hrest
          obtain ⟨rfl, hfeed, hreturn⟩ := ih.1 hmore
          exact ⟨rfl, ⟨hne.1, hfeed⟩, hne.2, hreturn⟩
      · rintro ⟨rfl, ⟨-, hfeed⟩, -, hreturn⟩
        exact .escape hsingle (ih.2 ⟨rfl, hfeed, hreturn⟩)
    · next hc =>
      obtain ⟨hslash, hquote⟩ := not_or.1 hc
      constructor
      · intro h
        obtain ⟨-, hfeed, hreturn, tail, rfl, hrest⟩ | ⟨heq, -⟩ := h.of_cons
        · obtain ⟨rfl, hfeeds, hreturns⟩ := ih.1 hrest
          exact ⟨rfl, ⟨Ne.symm hfeed, hfeeds⟩, Ne.symm hreturn, hreturns⟩
        · exact absurd heq hslash
      · rintro ⟨rfl, ⟨hfeed, hfeeds⟩, hreturn, hreturns⟩
        exact .plain hquote hslash (Ne.symm hfeed) (Ne.symm hreturn) (ih.2 ⟨rfl, hfeeds, hreturns⟩)

/-- Quoted text stands for the code units of the text, if it has no line feeds and no
carriage returns. -/
theorem standsFor_quote_iff : StandsFor (quote text) value ↔
    value = units text ∧ '\n' ∉ text ∧ '\r' ∉ text := by
  rw [← means_escape_iff]
  constructor
  · rintro ⟨mark, inside, -, hliteral, h⟩
    obtain ⟨rfl, hinside⟩ := List.cons.inj hliteral
    rwa [List.append_cancel_right hinside]
  · exact fun h => ⟨'\'', escape text, .inl rfl, rfl, h⟩

/-- Reading and writing keeps what a literal stands for, on one line, exactly if its
escapes are kept. -/
theorem kept_iff {literal : Text} (h : StandsFor literal value) : Kept literal ↔
    StandsFor (quote (unquote literal)) value ∧ OneLine (quote (unquote literal)) := by
  obtain ⟨mark, inside, -, rfl, hinside⟩ := h
  rw [Kept, unquote, List.tail_cons, List.dropLast_concat, hinside.compared.2,
    standsFor_quote_iff, oneLine_quote_iff]
  have hends {c : Char} (hc : Scan.endsLine c = true) (hline : OneLine (unescape inside)) :
      c ∉ unescape inside := fun hmem => by simp [hline c hmem] at hc
  constructor
  · rintro ⟨hvalue, hline⟩
    exact ⟨⟨hvalue, hends rfl hline, hends rfl hline⟩, hline⟩
  · rintro ⟨⟨hvalue, -⟩, hline⟩
    exact ⟨hvalue, hline⟩

end Writing

end InterfaceSchema.Text
