import InterfaceSchema.Proofs.Syntax.Leaving

/-!
# Tokens without arrows

Where parentheses open, a function type is tried before a type between
parentheses, and only the arrow behind them tells the two apart. What is read
leaves tokens at the end of the given ones, so that no arrow is found where
there was none. Only templates and regular expressions would be cut out of the
source anew: a token is tame if it is neither an arrow nor the start of one of
these, and all readers leave tame tokens.
-/

namespace InterfaceSchema

/-- A token that is no arrow, and from which on neither a template nor a regular
expression is read. -/
structure Token.Tame (source : Text) (token : Token) : Prop where
  arrow : token.isSymbol "=>" = false
  template : token.isSymbol "`" = false
  regex : Scan.regex? (Text.dropBytes token.start source) = none

/-- Tokens each of which is tame. -/
def AllTame (source : Text) (tokens : List Token) : Prop := ∀ token ∈ tokens, token.Tame source

variable {source : Text} {tokens : List Token} {depth : Nat}

/-- Tame tokens are tame without the first one. -/
theorem AllTame.tail {token : Token} (h : AllTame source (token :: tokens)) :
    AllTame source tokens := fun other hother => h other (List.mem_cons_of_mem _ hother)

/-- Tokens among tame ones are tame. -/
theorem AllTame.of_subset {rest : List Token} (h : AllTame source tokens) (hrest : rest ⊆ tokens) :
    AllTame source rest := fun token htoken => h token (hrest htoken)

/-- Tokens stay tame, as nothing is cut out of the source anew. -/
def tameness (source : Text) : TokenInvariant source where
  Holds := AllTame source
  Resumes _ := False
  tail := AllTame.tail
  settled h :=
    have htoken := h _ List.mem_cons_self
    List.forall_mem_cons.2 ⟨⟨htoken.arrow, htoken.template, htoken.regex⟩, h.tail⟩
  regex h hregex := absurd ((h _ List.mem_cons_self).regex.symm.trans hregex) nofun
  opened h hsymbol :=
    Bool.false_ne_true ((h _ List.mem_cons_self).template.symm.trans hsymbol)
  closed hfalse := hfalse.elim
  template hfalse := hfalse.elim

namespace Grammar

variable {setting : Setting} {reach next : Reach}

/-- No function type starts before tame tokens, among which there is no
arrow. -/
theorem follow_functionType (hs : setting.source = source) (h : AllTame source reach.tokens) :
    follow depth setting (.part .functionType) reach = none := by
  rw [Option.eq_none_iff_forall_ne_some]
  intro next hnext
  obtain ⟨_, hnext⟩ := exists_of_follow_part hnext
  obtain ⟨_, _, hgenerics, hnext⟩ := exists_of_follow_both hnext
  obtain ⟨_, _, hparameters, hnext⟩ := exists_of_follow_both hnext
  obtain ⟨_, _, harrow, -⟩ := exists_of_follow_both hnext
  have hopening := ((readersLeave (reading (tameness source)) _).follow hs rfl h _ hgenerics).2
  have hclosing : AllTame source _ :=
    ((readersLeave (reading (tameness source)) _).follow hs rfl hopening _ hparameters).2
  obtain ⟨token, htoken, hsymbol, -⟩ := exists_symbol harrow
  rw [htoken] at hclosing
  exact Bool.false_ne_true ((hclosing token List.mem_cons_self).arrow.symm.trans hsymbol)

end Grammar

end InterfaceSchema
