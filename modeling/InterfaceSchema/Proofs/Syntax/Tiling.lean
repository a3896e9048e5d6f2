import InterfaceSchema.Proofs.Syntax.Placement

/-!
# Spans that cover a source

Spans tile a part of a source if each of them starts where the one before it
ends. The texts that such spans cut out, one after another, are the text of the
whole part. Spans that only stand in order leave room between them.
-/

namespace InterfaceSchema

/-- Spans that cover everything between two positions, one behind the other,
without a gap and without an overlap. -/
def Tiles (start stop : Nat) : List Span → Prop
  | [] => start = stop
  | span :: rest => span.start = start ∧ span.start ≤ span.stop ∧ Tiles span.stop stop rest

/-- Spans between two positions, one behind the other. -/
def InOrder (start stop : Nat) : List Span → Prop
  | [] => start ≤ stop
  | span :: rest => start ≤ span.start ∧ span.start ≤ span.stop ∧ InOrder span.stop stop rest

section

variable {start middle stop : Nat} {spans more : List Span}

/-- Spans in order behind a position are so behind any earlier one. -/
theorem InOrder.mono_start {earlier : Nat} (hle : earlier ≤ start)
    (h : InOrder start stop spans) : InOrder earlier stop spans := by
  cases spans with
  | nil => exact Nat.le_trans hle h
  | cons span rest => exact ⟨Nat.le_trans hle h.1, h.2⟩

/-- Tiles take up no negative room. -/
theorem Tiles.le (h : Tiles start stop spans) : start ≤ stop := by
  induction spans generalizing start with
  | nil => exact Nat.le_of_eq h
  | cons span rest ih =>
    obtain ⟨rfl, hspan, hrest⟩ := h
    exact Nat.le_trans hspan (ih hrest)

/-- Tiles behind tiles. -/
theorem Tiles.append (hfirst : Tiles start middle spans) (hsecond : Tiles middle stop more) :
    Tiles start stop (spans ++ more) := by
  induction spans generalizing start with
  | nil =>
    obtain rfl : start = middle := hfirst
    exact hsecond
  | cons span rest ih =>
    obtain ⟨hstart, hspan, hrest⟩ := hfirst
    exact ⟨hstart, hspan, ih hrest⟩

end

section

variable {source : Text} {start middle stop : Nat}

/-- What is taken of a text whose first part fits is that part and what is
taken of the rest. -/
theorem Text.takeBytes_append {n : Nat} {first : Text} (h : Text.byteLength first ≤ n)
    (rest : Text) :
    Text.takeBytes n (first ++ rest) =
      first ++ Text.takeBytes (n - Text.byteLength first) rest := by
  induction first generalizing n with
  | nil => rfl
  | cons c more ih =>
    rw [Text.byteLength_cons] at h
    rw [List.cons_append, Text.takeBytes, if_pos (by omega), ih (by omega), Text.byteLength_cons,
      Nat.sub_sub]
    rfl

/-- Two cuts in order have a text between them. -/
theorem Cut.between (hstart : Cut source start) (hstop : Cut source stop) (hle : start ≤ stop) :
    ∃ before inner after, source = before ++ (inner ++ after) ∧
      Text.byteLength before = start ∧ start + Text.byteLength inner = stop := by
  obtain ⟨before, after, hsource, rfl⟩ := hstart
  obtain ⟨before', after', hsource', rfl⟩ := hstop
  have heq : before ++ after = before' ++ after' := hsource.symm.trans hsource'
  rcases List.append_eq_append_iff.1 heq with ⟨inner, rfl, rfl⟩ | ⟨inner, rfl, rfl⟩
  · exact ⟨before, inner, after', hsource, rfl, by simp⟩
  · -- the second cut is not behind the first one, so nothing stands between them
    have hinner : inner = [] := by
      cases inner with
      | nil => rfl
      | cons c rest =>
        have hc := c.utf8Size_pos
        simp only [Text.byteLength_append, Text.byteLength_cons] at hle
        omega
    subst hinner
    exact ⟨before', [], after, by simpa using hsource, by simp, by simp⟩

/-- Parts of the source that meet at a cut are one part. -/
theorem Span.slice_append_slice (hstart : Cut source start) (hmiddle : Cut source middle)
    (hfirst : start ≤ middle) (hsecond : middle ≤ stop) :
    Span.slice ⟨start, middle⟩ source ++ Span.slice ⟨middle, stop⟩ source =
      Span.slice ⟨start, stop⟩ source := by
  obtain ⟨before, inner, after, hsource, hbefore, hinner⟩ := hstart.between hmiddle hfirst
  have hdrop_start : Text.dropBytes start source = inner ++ after := by
    rw [hsource, ← hbefore, Text.dropBytes_byteLength_append]
  have hdrop_middle : Text.dropBytes middle source = after := by
    have hlength : Text.byteLength (before ++ inner) = middle := by
      rw [Text.byteLength_append, hbefore, hinner]
    rw [hsource, ← List.append_assoc, ← hlength, Text.dropBytes_byteLength_append]
  have htake : Text.takeBytes (middle - start) (inner ++ after) = inner := by
    have hlength : middle - start = Text.byteLength inner := by omega
    rw [hlength, Text.takeBytes_byteLength_append]
  have hrest : stop - start - Text.byteLength inner = stop - middle := by omega
  simp only [Span.slice, hdrop_start, hdrop_middle, htake]
  rw [Text.takeBytes_append (by omega), hrest]

/-- The part from the start to the end of a source is the source. -/
theorem Span.slice_whole (source : Text) :
    Span.slice ⟨0, Text.byteLength source⟩ source = source := by
  have h := Text.takeBytes_byteLength_append source []
  rw [List.append_nil] at h
  simpa [Span.slice, Text.dropBytes] using h

/-- A span that ends before it starts covers nothing. -/
theorem Span.slice_eq_nil {span : Span} (h : span.stop ≤ span.start) (source : Text) :
    span.slice source = [] := by
  have hzero : span.stop - span.start = 0 := by omega
  rw [Span.slice, hzero]
  cases Text.dropBytes span.start source with
  | nil => rfl
  | cons c rest =>
    have hc := c.utf8Size_pos
    rw [Text.takeBytes, if_neg (by omega)]

/-- The texts that tiles cut out of the source are the text between the
positions. -/
theorem Tiles.flatMap_slice {spans : List Span} (htiles : Tiles start stop spans)
    (hstart : Cut source start) (hcuts : ∀ span ∈ spans, Cut source span.stop) :
    spans.flatMap (fun span => span.slice source) = Span.slice ⟨start, stop⟩ source := by
  induction spans generalizing start with
  | nil =>
    obtain rfl : start = stop := htiles
    rw [Span.slice_eq_nil (Nat.le_refl _)]
    rfl
  | cons span rest ih =>
    obtain ⟨rfl, hspan, hrest⟩ := htiles
    have hstop := hcuts span List.mem_cons_self
    rw [List.flatMap_cons, ih hrest hstop fun other hother =>
      hcuts other (List.mem_cons_of_mem _ hother)]
    exact Span.slice_append_slice hstart hstop hspan hrest.le

end

end InterfaceSchema
