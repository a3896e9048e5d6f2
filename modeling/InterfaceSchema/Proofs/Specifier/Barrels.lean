import InterfaceSchema.Barrel
import InterfaceSchema.Proofs.Layout
import InterfaceSchema.Proofs.Specifier.Completion
import InterfaceSchema.Proofs.Specifier.Resolution
import InterfaceSchema.Proofs.Text.Names

/-!
# The specifiers of barrels

The only quotes of a barrel are those around its specifier, so that a scan for
specifiers finds this one and no other. It lacks an extension if the stem of the
source file has no dot but at its end; a stem like `user.d` is taken for one with
an extension, and its barrel is not completed.
-/

namespace InterfaceSchema.Specifier

open FileTree Disk

/-- The specifiers in code, one after another. The number bounds the
recursion. -/
def specifiersFrom : Nat → Text → List Text
  | 0, _ => []
  | _, [] => []
  | count + 1, c :: rest =>
    match atFrom? (c :: rest) with
    | some (found, more) => found.specifier :: specifiersFrom count more
    | none => specifiersFrom count rest

/-- The specifiers in code. -/
def specifiers (code : Text) : List Text := specifiersFrom code.length code

/-- No quote stands in a text. -/
def Quoteless (text : Text) : Prop := ∀ c ∈ text, isQuote c = false

/-- Code in a directory that leads to a file: it has one specifier when it is
completed, which ends in `.js` and names the file if it ends in `.ts`
instead. -/
def LeadsTo (directory file : Path) (code : Text) : Prop :=
  ∃ module : Text, specifiers ((complete? code).getD code) = [module ++ ".js"] ∧
    resolve directory.components (Path.components ⟨module ++ ".ts"⟩) = file.components

section Scanning

variable {front tail text : Text} {found : Found} {count : Nat}

/-- A fixed text for which this is decided has no quotes. -/
theorem quoteless_of_all (h : text.all (fun c => !isQuote c) = true) : Quoteless text :=
  fun c hc => by simpa using List.all_eq_true.1 h c hc

/-- Two texts without quotes are one without quotes. -/
theorem Quoteless.append (hfront : Quoteless front) (htail : Quoteless tail) :
    Quoteless (front ++ tail) := fun c hc =>
  (List.mem_append.1 hc).elim (hfront c) (htail c)

/-- What stands before the first quote. -/
theorem Quoteless.takeWhile (h : Quoteless front) {quote : Char} (hquote : isQuote quote = true)
    (rest : Text) : (front ++ quote :: rest).takeWhile (fun c => !isQuote c) = front := by
  rw [List.takeWhile_append_of_pos fun c hc => by simp [h c hc],
    List.takeWhile_cons_of_neg (by simp [hquote]), List.append_nil]

/-- No specifier stands in a text without quotes. -/
theorem atFrom?_quoteless (h : Quoteless text) : atFrom? text = none := by
  cases hfound : atFrom? text with
  | none => rfl
  | some result =>
    obtain ⟨hproper, htext⟩ := proper_of_atFrom? hfound
    have hmem : result.1.quote ∈ text := by
      rw [htext, Found.text]
      simp
    exact absurd hproper.quote (by simp [h _ hmem])

/-- No specifier starts before the word `from` that is followed by a blank and
the first quote. -/
theorem atFrom?_before (hne : front ≠ []) (hfront : Quoteless front)
    (hlead : found.lead = "from \"") (rest : Text) :
    atFrom? (front ++ (found.text ++ rest)) = none := by
  cases hfound : atFrom? (front ++ (found.text ++ rest)) with
  | none => rfl
  | some result =>
    obtain ⟨hproper, htext⟩ := proper_of_atFrom? hfound
    obtain ⟨blanks, quote, hlead', -, hblanks, hquote⟩ := hproper.lead
    have hspaces : Quoteless blanks := fun c hc => by
      cases hcase : isQuote c with
      | false => rfl
      | true => exact absurd (hblanks c hc) (by simp [isBlank_of_isQuote hcase])
    have hword : Quoteless ("from " : Text) := quoteless_of_all rfl
    have hword' : Quoteless ("from" : Text) := quoteless_of_all rfl
    have hparts : (front ++ "from ") ++ '"' :: (found.specifier ++ [found.quote] ++ rest) =
        ("from".toList ++ blanks) ++ quote ::
          (result.1.specifier ++ [result.1.quote] ++ result.2) := by
      rw [Found.text, Found.text, hlead, hlead'] at htext
      simpa using htext
    have hbefore : front ++ "from ".toList = "from".toList ++ blanks := by
      have hfirst := congrArg (List.takeWhile fun c => !isQuote c) hparts
      rwa [(hfront.append hword).takeWhile rfl, (hword'.append hspaces).takeWhile hquote] at hfirst
    have hnone (hmem : 'f' ∈ blanks) : False := absurd (hblanks _ hmem) (by decide)
    rcases List.append_eq_append_iff.1 hbefore with ⟨more, hstart, hend⟩ | ⟨more, -, hend⟩
    · -- the word would start again inside of itself
      have hletters : "from".toList = ['f', 'r', 'o', 'm'] := rfl
      have hblank : "from ".toList = ['f', 'r', 'o', 'm', ' '] := rfl
      rw [hletters] at hstart
      rw [hblank] at hend
      obtain ⟨c, others, rfl⟩ := List.exists_cons_of_ne_nil hne
      obtain ⟨-, hrom⟩ := List.cons.inj hstart
      cases more with
      | nil =>
        rw [List.nil_append] at hend
        exact (hnone (hend ▸ List.mem_cons_self)).elim
      | cons d letters =>
        obtain ⟨rfl, -⟩ := List.cons.inj hend
        have hmem : 'f' ∈ ['r', 'o', 'm'] := hrom ▸ List.mem_append_right _ List.mem_cons_self
        exact absurd hmem (by decide)
    · exact (hnone (hend ▸ List.mem_append_right _ List.mem_cons_self)).elim

/-- Text without quotes is kept. -/
theorem completeFrom_quoteless (h : Quoteless text) (count : Nat) :
    completeFrom count text = text := by
  induction text generalizing count with
  | nil => cases count <;> rfl
  | cons c rest ih =>
    cases count with
    | zero => rfl
    | succ count =>
      rw [completeFrom, atFrom?_quoteless h]
      dsimp only
      rw [ih fun d hd => h d (List.mem_cons_of_mem _ hd)]

/-- Text without quotes has no specifiers. -/
theorem specifiersFrom_quoteless (h : Quoteless text) (count : Nat) :
    specifiersFrom count text = [] := by
  induction text generalizing count with
  | nil => cases count <;> rfl
  | cons c rest ih =>
    cases count with
    | zero => rfl
    | succ count =>
      rw [specifiersFrom, atFrom?_quoteless h]
      exact ih (fun d hd => h d (List.mem_cons_of_mem _ hd)) count

/-- The specifiers from a specifier on. -/
theorem specifiersFrom_text (h : found.Proper) (count : Nat) (more : Text) :
    specifiersFrom (count + 1) (found.text ++ more) =
      found.specifier :: specifiersFrom count more := by
  have hfound := atFrom?_text h more
  obtain ⟨c, rest, htext⟩ := h.exists_cons
  rw [htext, List.cons_append] at hfound ⊢
  rw [specifiersFrom, hfound]

/-- Code with one specifier is completed there, and has no other. -/
theorem scan_single (hproper : found.Proper) (hlead : found.lead = "from \"")
    (hfront : Quoteless front) (htail : Quoteless tail) (hcount : front.length < count) :
    completeFrom count (front ++ (found.text ++ tail)) =
        front ++ (found.completed.text ++ tail) ∧
      specifiersFrom count (front ++ (found.text ++ tail)) = [found.specifier] := by
  induction front generalizing count with
  | nil =>
    obtain ⟨count, rfl⟩ : ∃ count', count = count' + 1 := ⟨count - 1, by omega⟩
    rw [List.nil_append, List.nil_append, completeFrom_text hproper, specifiersFrom_text hproper,
      completeFrom_quoteless htail, specifiersFrom_quoteless htail]
    exact ⟨rfl, rfl⟩
  | cons c front ih =>
    rw [List.length_cons] at hcount
    obtain ⟨count, rfl⟩ : ∃ count', count = count' + 1 := ⟨count - 1, by omega⟩
    have hnone := atFrom?_before (List.cons_ne_nil c front) hfront hlead tail
    obtain ⟨hcompleted, hspecifiers⟩ := @ih count (fun d hd => hfront d (List.mem_cons_of_mem _ hd))
      (by omega)
    rw [List.cons_append] at hnone ⊢
    rw [completeFrom, specifiersFrom, hnone]
    dsimp only
    rw [hcompleted, hspecifiers]
    exact ⟨rfl, rfl⟩

end Scanning

section Barrels

variable {names dirs front : List Text} {stem specifier : Text}

/-- A barrel up to its specifier. -/
def listing (names : List Text) : Text :=
  Barrel.header ++ ("\n\nexport \x7b\n" ++
    ((names.map fun name => name ++ [',']).flatMap (Writer.marginLine .barrel 1) ++ "\x7d "))

/-- The specifier of a barrel with what stands around it. -/
def quoted (specifier : Text) : Found := ⟨"from \"", specifier, '"'⟩

/-- A barrel lists its names before its specifier. -/
theorem render_eq (names : List Text) (specifier : Text) :
    Barrel.render names specifier = listing names ++ ((quoted specifier).text ++ ";\n\n") := by
  have hwithin := Writer.within_allLines_text ((Writer.new .barrel).line Barrel.header).blank
    "export \x7b" ("\x7d from \"" ++ specifier ++ "\";") (names.map fun name => name ++ [','])
  have hrender : Barrel.render names specifier =
      (((Writer.new .barrel).line Barrel.header).blank.within "export \x7b"
        ("\x7d from \"" ++ specifier ++ "\";") fun inner =>
          inner.allLines (names.map fun name => name ++ [','])).text ++ ['\n'] := rfl
  have hopening (rest : Text) : ((Writer.new .barrel).line Barrel.header).blank.text ++
      (Writer.marginLine .barrel 0 "export \x7b" ++ rest) =
        Barrel.header ++ ("\n\nexport \x7b\n".toList ++ rest) := rfl
  have hclosing : Writer.marginLine .barrel 0 ("\x7d from \"" ++ specifier ++ "\";") ++ ['\n'] =
      "\x7d ".toList ++ ((quoted specifier).text ++ ";\n\n".toList) := by
    have hlead : "\x7d from \"".toList = "\x7d ".toList ++ "from \"".toList := rfl
    have htail : "\";".toList ++ (['\n'] ++ ['\n']) = ['"'] ++ ";\n\n".toList := rfl
    have hmargin (content : Text) : Writer.marginLine .barrel 0 content = content ++ ['\n'] := rfl
    have hquoted : (quoted specifier).text = "from \"".toList ++ (specifier ++ ['"']) := rfl
    rw [hmargin, hquoted, hlead]
    simp only [List.append_assoc]
    rw [htail]
  have hlisting : listing names = Barrel.header ++ ("\n\nexport \x7b\n".toList ++
      ((names.map fun name => name ++ [',']).flatMap (Writer.marginLine .barrel 1) ++
        "\x7d ".toList)) := rfl
  rw [hrender, hwithin, hlisting]
  refine (congrArg (· ++ ['\n']) (hopening _)).trans ?_
  simp only [List.append_assoc]
  exact congrArg (fun rest => Barrel.header ++ ("\n\nexport \x7b\n".toList ++
    ((names.map fun name => name ++ [',']).flatMap (Writer.marginLine .barrel 1) ++ rest))) hclosing

/-- An identifier has no quotes. -/
theorem quoteless_of_isIdentifier {name : Text} (h : Text.isIdentifier name = true) :
    Quoteless name := by
  intro c hc
  have hplain := Calls.isPlain_of_named
    (Text.startsName_of_isDotted (Text.isDotted_of_isIdentifier h) hc)
  cases hquote : isQuote c with
  | false => rfl
  | true =>
    simp only [isQuote, Bool.or_eq_true, beq_iff_eq] at hquote
    rcases hquote with rfl | rfl <;> cases hplain

/-- A barrel has no quotes before those of its specifier. -/
theorem quoteless_listing (hnames : ∀ name ∈ names, Text.isIdentifier name = true) :
    Quoteless (listing names) := by
  have hheader : Quoteless Barrel.header := quoteless_of_all rfl
  have hopening : Quoteless "\n\nexport \x7b\n".toList := quoteless_of_all rfl
  have hclosing : Quoteless "\x7d ".toList := quoteless_of_all rfl
  refine hheader.append (hopening.append (Quoteless.append (fun c hc => ?_) hclosing))
  obtain ⟨line, hline, hmem⟩ := List.mem_flatMap.1 hc
  obtain ⟨name, hname, rfl⟩ := List.mem_map.1 hline
  have htab : Quoteless (Writer.margin .barrel 1) := quoteless_of_all rfl
  have hcomma : Quoteless [','] := quoteless_of_all rfl
  have hfeed : Quoteless ['\n'] := quoteless_of_all rfl
  exact (htab.append (((quoteless_of_isIdentifier (hnames name hname)).append hcomma).append
    hfeed)) c hmem

/-- Specifiers of files in one directory end with their last names behind a
slash. -/
theorem exists_leading (front : List Text) :
    ∃ before, ∀ name, leading front name = before ++ '/' :: name := by
  obtain ⟨down, hdown, hjoin⟩ := exists_joinWith_concat front
  rcases hdown with rfl | hslash
  · refine ⟨".", fun name => ?_⟩
    rw [leading, hjoin]
    rfl
  · obtain ⟨before, rfl⟩ := List.getLast?_eq_some_iff.1 hslash
    refine ⟨"./" ++ before, fun name => ?_⟩
    rw [leading, hjoin]
    simp

/-- The specifier of a schema file lacks an extension if its stem has no dot but
at its end. -/
theorem completed_leading (hslash : '/' ∉ stem) (hdots : '.' ∉ stem.dropLast) :
    completed (leading front stem) = leading front stem ++ ".js" := by
  obtain ⟨before, hbefore⟩ := exists_leading front
  have hlast : ((leading front stem).reverse.takeWhile (· != '/')).reverse = stem := by
    have hreverse : (leading front stem).reverse = stem.reverse ++ '/' :: before.reverse := by
      rw [hbefore]
      simp
    have hnone : ∀ c ∈ stem.reverse, (c != '/') = true := fun c hc => by
      rw [bne_iff_ne]
      rintro rfl
      exact hslash (List.mem_reverse.1 hc)
    rw [hreverse, List.takeWhile_append_of_pos hnone, List.takeWhile_cons_of_neg (by simp),
      List.append_nil, List.reverse_reverse]
  have hextension : hasExtension (leading front stem) = false := by
    rw [hasExtension, hlast]
    simpa using hdots
  have hrelative : isRelative (leading front stem) = true := rfl
  rw [completed, hrelative, hextension]
  rfl

/-- Names without quotes make up a path without quotes. -/
theorem quoteless_joinWith {list : List Text} (h : ∀ name ∈ list, Quoteless name) :
    Quoteless (Text.joinWith "/" list) := by
  induction list with
  | nil => exact quoteless_of_all rfl
  | cons name rest ih =>
    have hname := h name List.mem_cons_self
    have hrest := ih fun other hother => h other (List.mem_cons_of_mem _ hother)
    have hslash : Quoteless ['/'] := quoteless_of_all rfl
    cases rest with
    | nil => simpa using hname
    | cons second more =>
      rw [joinWith_names]
      exact hname.append (hslash.append hrest)

/-- The specifier of a schema file is written as specifiers are. -/
theorem proper_quoted (hne : stem ≠ []) (hquotes : ∀ name ∈ front ++ [stem], Quoteless name) :
    (quoted (leading front stem)).Proper := by
  have hpath : Quoteless (Text.joinWith "/" (front ++ [stem])) := quoteless_joinWith hquotes
  have hdot : Quoteless "./".toList := quoteless_of_all rfl
  have hmore : Text.joinWith "/" (front ++ [stem]) ≠ [] := by
    obtain ⟨down, -, hjoin⟩ := exists_joinWith_concat front
    rw [hjoin]
    simp [hne]
  obtain ⟨c, rest, hcons⟩ := List.exists_cons_of_ne_nil hmore
  refine ⟨⟨" ", '"', rfl, by simp, List.all_eq_true.1 rfl, rfl⟩, ?_, hdot.append hpath, rfl⟩
  refine startsPath_iff.2 ⟨".", by decide, c, rest, ?_, hpath c (hcons ▸ List.mem_cons_self)⟩
  rw [← hcons]
  rfl

/-- A barrel whose specifier lacks an extension is the barrel of the completed
specifier when it is completed, and has no other specifier then. -/
theorem specifiers_render (hnames : ∀ name ∈ names, Text.isIdentifier name = true)
    (hproper : (quoted specifier).Proper) (hcompleted : completed specifier = specifier ++ ".js") :
    (complete? (Barrel.render names specifier)).getD (Barrel.render names specifier) =
        Barrel.render names (specifier ++ ".js") ∧
      specifiers (Barrel.render names (specifier ++ ".js")) = [specifier ++ ".js"] := by
  have hlisting := quoteless_listing hnames
  have hend : Quoteless ";\n\n".toList := quoteless_of_all rfl
  have hfound : (quoted specifier).completed = quoted (specifier ++ ".js") :=
    congrArg (fun specifier => quoted specifier) hcompleted
  have hproper' : (quoted (specifier ++ ".js")).Proper := hfound ▸ hproper.completed
  have hlength (specifier : Text) :
      (listing names).length < (Barrel.render names specifier).length := by
    rw [render_eq, List.length_append, List.length_append]
    have hend : 0 < ";\n\n".toList.length := by decide
    omega
  constructor
  · have hscan := (scan_single hproper rfl hlisting hend (hlength specifier)).1
    rw [hfound, ← render_eq, ← render_eq] at hscan
    rw [complete?, hscan]
    split
    · next heq => exact heq.symm
    · rfl
  · have hscan := (scan_single hproper' rfl hlisting hend (hlength (specifier ++ ".js"))).2
    rwa [← render_eq] at hscan

/-- The barrel of a source file leads to its schema file, if the stem of the
source file has no dot but at its end, and the names on the way to it have no
quotes. -/
theorem leadsTo_schemaPath (base : Path) (hdirs : ∀ name ∈ dirs, IsName name)
    (hstem : IsName stem) (hdots : '.' ∉ stem.dropLast)
    (hquotes : ∀ name ∈ dirs ++ [stem], Quoteless name)
    (hnames : ∀ name ∈ names, Text.isIdentifier name = true) :
    LeadsTo (base.join ⟨stem⟩) (schemaPath base dirs (stem ++ ".ts"))
      (Barrel.render names (ofPath (base.join ⟨stem⟩) (schemaPath base dirs (stem ++ ".ts")))) := by
  obtain ⟨front, hfront, hspecifier⟩ := ofPath_schemaPath base hdirs hstem
  have hproper : (quoted (leading front stem)).Proper := by
    refine proper_quoted hstem.ne_nil fun name hname => ?_
    have hup : Quoteless "..".toList := quoteless_of_all rfl
    have htypes : Quoteless "types".toList := quoteless_of_all rfl
    cases hfront with
    | inside _ => exact hquotes name hname
    | outside _ =>
      rcases List.mem_cons.1 hname with rfl | hname
      · exact hup
      rcases List.mem_cons.1 hname with rfl | hname
      · exact htypes
      · exact hquotes name hname
  obtain ⟨hcode, hspecifiers⟩ :=
    specifiers_render hnames hproper (completed_leading hstem.slash hdots)
  have hfile : IsName (stem ++ ".ts") := isName_append hstem (by decide) (by decide)
  have hmodule : leading front stem ++ ".ts" = leading front (stem ++ ".ts") := by
    obtain ⟨before, hbefore⟩ := exists_leading front
    rw [hbefore, hbefore, List.append_assoc]
    rfl
  refine ⟨leading front stem, ?_, ?_⟩
  · rw [hspecifier, hcode, hspecifiers]
  · rw [hmodule]
    exact resolve_leading base hdirs hstem hfile hfront

/-- A source file in a directory whose name has a dot. -/
theorem leadsTo_schemaPath_nested :
    LeadsTo (Path.join ⟨"out//zod"⟩ ⟨"user"⟩) (schemaPath ⟨"out//zod"⟩ ["a", "v1.2"] "user.ts")
      (Barrel.render ["A", "A_properties_b"] "./../types/a/v1.2/user") := by
  have hnames : ∀ name ∈ ["a".toList, "v1.2".toList], IsName name := by decide
  have hquotes : ∀ name ∈ ["a".toList, "v1.2".toList] ++ ["user".toList], Quoteless name := by
    rintro name hname
    simp only [List.cons_append, List.nil_append, List.mem_cons, List.not_mem_nil,
      or_false] at hname
    rcases hname with rfl | rfl | rfl <;> exact quoteless_of_all rfl
  have hspecifier : ofPath (Path.join ⟨"out//zod"⟩ ⟨"user"⟩)
      (schemaPath ⟨"out//zod"⟩ ["a", "v1.2"] ("user" ++ ".ts")) = "./../types/a/v1.2/user" := by
    decide +kernel
  have hleads := @leadsTo_schemaPath ["A", "A_properties_b"] ["a", "v1.2"] "user" ⟨"out//zod"⟩
    hnames (by decide) (by decide) hquotes (by decide)
  rwa [hspecifier] at hleads

/-- A stem with a dot before its end is taken for a name with an extension, and
the specifier of its barrel is not completed. -/
theorem not_leadsTo_schemaPath_of_dot :
    ¬∀ (base : Path) (dirs : List Text) (stem : Text) (names : List Text),
      Component.here ∉ base.components → Component.up ∉ base.components →
      (∀ name ∈ dirs, IsName name) → stem ≠ [] → IsName (stem ++ ".ts") → names ≠ [] →
      (∀ name ∈ names, Text.isIdentifier name = true) →
      LeadsTo (base.join ⟨stem⟩) (schemaPath base dirs (stem ++ ".ts"))
        (Barrel.render names
          (ofPath (base.join ⟨stem⟩) (schemaPath base dirs (stem ++ ".ts")))) := by
  intro h
  obtain ⟨module, hspecifiers, -⟩ := h ⟨"out"⟩ [] "user.d" ["A"] (by decide) (by decide) (by simp)
    (by decide) (by decide) (by simp) (by decide)
  have hspecifier : ofPath (Path.join ⟨"out"⟩ ⟨"user.d"⟩)
      (schemaPath ⟨"out"⟩ [] ("user.d" ++ ".ts")) = "./../types/user.d" := by decide +kernel
  have hfound : specifiers ((complete? (Barrel.render ["A"] "./../types/user.d")).getD
      (Barrel.render ["A"] "./../types/user.d")) = ["./../types/user.d".toList] := by decide +kernel
  rw [hspecifier, hfound, List.cons.injEq] at hspecifiers
  have hlast := congrArg List.getLast? hspecifiers.1
  have hd : "./../types/user.d".toList.getLast? = some 'd' := by decide
  have hs : ".js".toList.getLast? = some 's' := by decide
  rw [List.getLast?_append, hd, hs, Option.some_or] at hlast
  exact absurd hlast (by decide)

end Barrels

end InterfaceSchema.Specifier
