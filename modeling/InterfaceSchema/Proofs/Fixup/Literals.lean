import InterfaceSchema.Proofs.Fixup.Replacing
import InterfaceSchema.Proofs.Text.Literals
import InterfaceSchema.Proofs.Text.Replacement

/-!
# Literals under fixups

A fixup is found by its name in the whole code, literals included. If the name
stands outside of literals only, then the scan of the arguments of a call starts
where a reader of the code stands outside of literals, and comes to the ends of
arguments there as well. So neither the arguments nor what follows the call is
read differently afterwards.
-/

namespace InterfaceSchema

open Text

namespace Calls

variable {callee : Text} {change : List Text → Option Text} {before : Option Char}
  {text rest : Text} {found : List Text} {reading : Reading} {place : Place}

section Pieces

/-- The character of a quote. -/
def quoteChar : Quote → Char
  | .single => '\''
  | .double => '"'
  | .back => '`'

/-- A character is the quote whose character it is. -/
theorem quoteOf?_eq_some {c : Char} {quote : Quote} :
    quoteOf? c = some quote ↔ c = quoteChar quote := by
  constructor
  · intro h
    unfold quoteOf? at h
    split at h <;> cases h <;> rfl
  · rintro rfl
    cases quote <;> rfl

/-- A scan of arguments and a reader of the code stand in the same literal, or
both in none. -/
def Place.Agrees : Place → Reading.Spot → Prop
  | .code _, .code => True
  | .quoted c _, .literal quote _ | .escaped c _, .escaped quote _ => c = quoteChar quote
  | _, _ => False

/-- They go on together. -/
theorem Place.Agrees.step (h : place.Agrees reading.spot) (c : Char) :
    (place.next c).Agrees (reading.step c).spot := by
  obtain ⟨closed, spot⟩ := reading
  cases place with
  | code depth =>
    cases spot with
    | code =>
      simp only [Place.next, Reading.step]
      cases hquote : quoteOf? c with
      | none =>
        have hno : ¬(c = '\'' ∨ c = '"' ∨ c = '`') := by
          rintro (rfl | rfl | rfl) <;> cases hquote
        rw [if_neg hno]
        split
        · trivial
        · split <;> trivial
      | some quote =>
        obtain rfl := quoteOf?_eq_some.1 hquote
        have hyes : quoteChar quote = '\'' ∨ quoteChar quote = '"' ∨ quoteChar quote = '`' := by
          cases quote <;> decide
        rw [if_pos hyes]
        rfl
    | literal quote read => exact h.elim
    | escaped quote read => exact h.elim
  | quoted first depth =>
    cases spot with
    | literal quote read =>
      obtain rfl : first = quoteChar quote := h
      simp only [Place.next, Reading.step, quoteOf?_eq_some]
      split
      · trivial
      · split <;> rfl
    | code => exact h.elim
    | escaped quote read => exact h.elim
  | escaped first depth =>
    cases spot with
    | escaped quote read => exact h
    | code => exact h.elim
    | literal quote read => exact h.elim

/-- A scan outside of literals agrees with a reader outside of literals only. -/
theorem agrees_code {depth : Nat} {spot : Reading.Spot} :
    (Place.code depth).Agrees spot ↔ spot = .code := by
  cases spot <;> simp [Place.Agrees]

/-- The pieces of arguments end outside of literals. -/
theorem spot_pieces (h : pieces place text = some (found, rest))
    (hagrees : place.Agrees reading.spot) :
    ∃ first more, found = first :: more ∧ (reading.through first).spot = .code ∧
      ∀ piece ∈ more, Balanced piece := by
  induction text generalizing place reading found rest with
  | nil => cases h
  | cons c text ih =>
    rw [pieces] at h
    split at h
    · next hparen =>
      cases h
      rw [hparen.1, agrees_code] at hagrees
      exact ⟨[], [], rfl, hagrees, by simp⟩
    split at h
    · next hcomma =>
      obtain ⟨⟨others, after⟩, hpieces, heq⟩ := Option.map_eq_some_iff.1 h
      cases heq
      rw [hcomma.1, agrees_code] at hagrees
      refine ⟨[], others, rfl, hagrees, fun piece hpiece reading hspot => ?_⟩
      obtain ⟨first, more, rfl, hfirst, hmore⟩ := ih hpieces (agrees_code.2 hspot)
      rcases List.mem_cons.1 hpiece with rfl | hpiece
      · exact hfirst
      · exact hmore piece hpiece reading hspot
    · obtain ⟨⟨others, after⟩, hpieces, heq⟩ := Option.map_eq_some_iff.1 h
      obtain ⟨first, more, hothers, hfirst, hmore⟩ := ih hpieces (hagrees.step c)
      cases hothers
      cases heq
      exact ⟨c :: first, more, rfl, hfirst, hmore⟩

/-- The pieces of a call are balanced. -/
theorem balanced_of_pieces (h : pieces (.code 0) text = some (found, rest)) :
    ∀ piece ∈ found, Balanced piece := by
  intro piece hpiece reading hspot
  obtain ⟨first, more, rfl, hfirst, hmore⟩ := spot_pieces h (agrees_code.2 hspot)
  rcases List.mem_cons.1 hpiece with rfl | hpiece
  · exact hfirst
  · exact hmore piece hpiece reading hspot

end Pieces

section Arguments

/-- The arguments of a call are read like its pieces. -/
theorem balanced_arguments (h : ∀ piece ∈ found, Balanced piece) :
    (∀ argument ∈ argumentsOf found, Balanced argument) ∧
      ∀ reading : Reading, reading.spot = .code →
        (argumentsOf found).foldl Reading.through reading =
          found.foldl Reading.through reading := by
  refine ⟨fun argument hargument => ?_, fun reading hspot => ?_⟩
  · obtain ⟨piece, hpiece, rfl⟩ := exists_of_mem_argumentsOf hargument
    exact (h piece hpiece).trim.1
  · have htrimmed : (found.map Text.trim).foldl Reading.through reading =
        found.foldl Reading.through reading :=
      Reading.foldl_map hspot h fun piece hpiece => (h piece hpiece).trim.2
    unfold argumentsOf
    dsimp only
    split
    · next hlast =>
      -- an empty last argument says nothing
      have hsplit := List.dropLast_append_getLast? [] hlast
      rw [← htrimmed]
      conv_rhs => rw [← hsplit, List.foldl_append]
      rfl
    · exact htrimmed

/-- A pattern that stands outside of literals in what is inside of a call does
so in each argument. -/
theorem outside_argument {pattern argument : Text} (hspot : reading.spot = .code)
    (hfound : ∀ piece ∈ found, Balanced piece) (hargument : argument ∈ argumentsOf found)
    (h : Outside pattern reading (joinWith "," found)) : Outside pattern reading argument := by
  obtain ⟨piece, hpiece, rfl⟩ := exists_of_mem_argumentsOf hargument
  have hcomma : Unquoted ("," : Text) := unquoted_of_all rfl
  obtain ⟨front, tail, hjoin, hfront⟩ := exists_of_mem_joinWith hcomma hfound hpiece
  obtain ⟨before, after, hpiece_eq, hbefore, -⟩ := exists_trim piece
  rw [hjoin] at h
  have hpart := h.of_balanced hspot hfront
  rw [hpiece_eq] at hpart
  exact hpart.of_balanced hspot hbefore.balanced

end Arguments

section Replaced

/-- What `change` makes of a call is read like the arguments. -/
def Faithful (change : List Text → Option Text) : Prop :=
  ∀ arguments call, change arguments = some call → (∀ argument ∈ arguments, Balanced argument) →
    ∀ reading : Reading, reading.spot = .code →
      reading.through call = arguments.foldl Reading.through reading

/-- A call becomes what is read like what is inside of it, if its parts do. -/
theorem through_replacedCall (hcallee : Unquoted callee) (hchange : Faithful change)
    (hspot : reading.spot = .code) (hfound : ∀ piece ∈ found, Balanced piece)
    (harguments : ∀ argument ∈ argumentsOf found, ∀ reading : Reading, reading.spot = .code →
      reading.through (replaced callee change none argument) = reading.through argument)
    (hinside : reading.through (replaced callee change none (joinWith "," found)) =
      reading.through (joinWith "," found)) :
    reading.through (replacedCall callee change found) = reading.through (joinWith "," found) := by
  have hcomma : Unquoted ("," : Text) := unquoted_of_all rfl
  have hjoin := Reading.through_joinWith hspot hcomma hfound
  obtain ⟨hbalanced, hread⟩ := balanced_arguments hfound
  rw [replacedCall]
  cases hcall : change ((argumentsOf found).map (replaced callee change none)) with
  | some call =>
    have hnew : ∀ argument ∈ (argumentsOf found).map (replaced callee change none),
        Balanced argument := by
      rintro _ hmem reading hspot
      obtain ⟨argument, hargument, rfl⟩ := List.mem_map.1 hmem
      rw [harguments argument hargument reading hspot]
      exact hbalanced argument hargument reading hspot
    rw [Option.getD_some, hchange _ _ hcall hnew reading hspot,
      Reading.foldl_map hspot hbalanced harguments, hread reading hspot, hjoin]
  | none =>
    have hopen : Unquoted ("(" : Text) := unquoted_of_all rfl
    have hclose : Unquoted (")" : Text) := unquoted_of_all rfl
    have hcode : (reading.through (joinWith "," found)).spot = .code := by
      rw [hjoin]
      exact Reading.spot_foldl hspot hfound
    have hparts (inside : Text) : callee ++ ('(' :: (inside ++ ")")) =
        callee ++ ("(" ++ (inside ++ ")")) := rfl
    rw [Option.getD_none, hparts, Reading.through_append, Reading.through_unquoted hspot hcallee,
      Reading.through_append, Reading.through_unquoted hspot hopen, Reading.through_append, hinside,
      Reading.through_unquoted hcode hclose]

/-- A call that is found stands outside of literals, and so does what it
consists of. -/
theorem parts_of_call (hcallee : Unquoted callee) {after : Text}
    (hopen : openCall? before after = some (found, rest))
    (h : Outside (callee ++ "(") reading (callee ++ after)) :
    reading.spot = .code ∧ (∀ piece ∈ found, Balanced piece) ∧
      Outside (callee ++ "(") reading (joinWith "," found) ∧
      Outside (callee ++ "(") (reading.through (joinWith "," found)) rest ∧
      reading.through (callee ++ after) = (reading.through (joinWith "," found)).through rest := by
  obtain ⟨inside, rfl, hpieces⟩ : ∃ inside, after = '(' :: inside ∧
      pieces (.code 0) inside = some (found, rest) := by
    unfold openCall? at hopen
    split at hopen
    · split at hopen
      · exact ⟨_, rfl, hopen⟩
      · cases hopen
    · cases hopen
  obtain ⟨-, hinside⟩ := eq_of_pieces hpieces
  have hfound := balanced_of_pieces hpieces
  have hspot : reading.spot = .code := h [] inside (by rw [List.append_assoc]; rfl)
  have hname : Unquoted (callee ++ "(") := by
    intro d hd
    rcases List.mem_append.1 hd with hd | hd
    · exact hcallee d hd
    · obtain rfl := List.mem_singleton.1 hd
      exact ⟨rfl, by decide⟩
  have hcomma : Unquoted ("," : Text) := unquoted_of_all rfl
  have hclose : Unquoted (")" : Text) := unquoted_of_all rfl
  have htext : callee ++ '(' :: inside =
      (callee ++ "(") ++ (joinWith "," found ++ (")" ++ rest)) := by
    rw [hinside, List.append_assoc]
    rfl
  have hcode : (reading.through (joinWith "," found)).spot = .code := by
    rw [Reading.through_joinWith hspot hcomma hfound]
    exact Reading.spot_foldl hspot hfound
  rw [htext] at h ⊢
  have hdrop := h.drop
  rw [Reading.through_unquoted hspot hname] at hdrop
  have hrest := hdrop.drop.drop
  rw [Reading.through_unquoted hcode hclose] at hrest
  refine ⟨hspot, hfound, h.of_balanced hspot hname.balanced, hrest, ?_⟩
  rw [Reading.through_append, Reading.through_unquoted hspot hname, Reading.through_append,
    Reading.through_append, Reading.through_unquoted hcode hclose]

/-- If the calls of a function are written outside of literals only, then a
text is read alike when they are replaced. -/
theorem through_replaced (hne : callee ≠ []) (hcallee : Unquoted callee)
    (hchange : Faithful change) (h : Outside (callee ++ "(") reading text) :
    reading.through (replaced callee change before text) = reading.through text := by
  induction hlength : text.length using Nat.strongRecOn generalizing text before reading with
  | ind length ih =>
    subst hlength
    cases text with
    | nil => rw [replaced_nil]
    | cons c rest =>
      by_cases hlead : callee <+: c :: rest
      · obtain ⟨after, hafter⟩ := hlead
        rw [← hafter] at h ih ⊢
        have hpositive := List.length_pos_iff.2 hne
        rw [List.length_append] at ih
        cases hopen : openCall? before after with
        | none =>
          rw [replaced_name hne hopen, Reading.through_append, Reading.through_append]
          exact ih after.length (by omega) h.drop rfl
        | some parts =>
          obtain ⟨found, more⟩ := parts
          have hlengths := length_of_openCall? hopen
          obtain ⟨hspot, hfound, hinside, hmore, hread⟩ := parts_of_call hcallee hopen h
          have harguments (argument : Text) (hargument : argument ∈ argumentsOf found)
              (other : Reading) (hother : other.spot = .code) :
              other.through (replaced callee change none argument) = other.through argument := by
            have houtside := outside_argument hspot hfound hargument hinside
            obtain ⟨piece, hpiece, rfl⟩ := exists_of_mem_argumentsOf hargument
            have htrim_le := length_trim_le piece
            have hpiece_le := length_le_joinWith hpiece ","
            exact ih _ (by omega) (houtside.of_code hspot hother) rfl
          have hcall := through_replacedCall hcallee hchange hspot hfound harguments
            (ih _ (by omega) hinside rfl)
          rw [replaced_call hne hopen, Reading.through_append, hcall, hread]
          exact ih _ (by omega) hmore rfl
      · rw [replaced_cons hlead, Reading.through_cons, Reading.through_cons]
        exact ih rest.length (Nat.lt_succ_self _) (@Outside.drop reading [c] rest _ h) rfl

end Replaced

end Calls

end InterfaceSchema
