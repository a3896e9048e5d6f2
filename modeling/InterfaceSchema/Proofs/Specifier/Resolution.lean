import InterfaceSchema.Proofs.Disk.Parents
import InterfaceSchema.Specifier

/-!
# Where specifiers lead

A specifier is resolved against the components of a directory. The specifier of
a schema file, seen from the directory for its barrels, leads to the file once
the extension is put back: out of that directory and down to the file.
-/

namespace InterfaceSchema.Specifier

open FileTree Disk

/-- The path of a file below the directory for schema files. -/
def schemaPath (base : Path) (dirs : List Text) (name : Text) : Path :=
  (base.join ⟨"types"⟩).join ⟨Text.joinWith "/" (dirs ++ [name])⟩

/-- The components that a path leads to, from those of a directory. -/
def resolve (start : List Component) : List Component → List Component
  | [] => start
  | .root :: rest => resolve [.root] rest
  | .here :: rest => resolve start rest
  | .up :: rest => resolve start.dropLast rest
  | .name name :: rest => resolve (start ++ [.name name]) rest

section Joining

variable {list dirs : List Text} {front first rest name : Text}

/-- What a path starts with does not change if it goes on behind a slash. -/
theorem lead_append (hne : first ≠ [])
    (hslash : first.getLast? = some '/' ∨ rest.head? = some '/') :
    (Path.mk (first ++ rest)).split.1 = (Path.mk first).split.1 := by
  obtain ⟨c, more, rfl⟩ := List.exists_cons_of_ne_nil hne
  by_cases hroot : c = '/'
  · rw [hroot]
    rfl
  by_cases hdot : c = '.'
  · subst hdot
    cases more with
    | nil =>
      cases rest with
      | nil => simp at hslash
      | cons d others =>
        obtain rfl : d = '/' := by simpa using hslash
        rfl
    | cons d others =>
      by_cases hd : d = '/'
      · rw [hd]
        rfl
      · simp [Path.split, hd]
  · simp [Path.split, hroot, hdot]

/-- Names below directories lead down. -/
theorem leadDown_concat (hdirs : ∀ name ∈ dirs, IsName name) (hname : IsName name) :
    LeadDown (dirs ++ [name]) := by
  refine ⟨by simp, fun other hother => ?_⟩
  rcases List.mem_append.1 hother with hother | hother
  · exact hdirs other hother
  · exact List.mem_singleton.1 hother ▸ hname

/-- A single name leads down. -/
theorem leadDown_singleton (hname : IsName name) : LeadDown [name] :=
  ⟨List.cons_ne_nil name [], by simpa using hname⟩

/-- Names with slashes between them are the pieces of the path. -/
theorem split_joinWith (h : LeadDown list) :
    (Path.mk (Text.joinWith "/" list)).split = (.none, list) :=
  split_sourcePath ⟨"."⟩ h

/-- What a joined path starts with. -/
theorem lead_join (base : Path) (h : LeadDown list) :
    (base.join ⟨Text.joinWith "/" list⟩).split.1 = base.split.1 := by
  obtain ⟨text⟩ := base
  have habsolute : ¬(Path.mk (Text.joinWith "/" list)).isAbsolute = true := by
    rw [isAbsolute_joinWith h.proper]
    exact Bool.false_ne_true
  rw [Path.join, if_neg habsolute]
  split
  · next hend =>
    by_cases hempty : text = []
    · subst hempty
      change (Path.mk (Text.joinWith "/" list)).split.1 = Path.Lead.none
      rw [split_joinWith h]
    · exact lead_append hempty (.inl (hend.resolve_left (by simpa using hempty)))
  · next hend =>
    refine lead_append (fun hempty => hend (.inl ?_)) (.inr rfl)
    rw [hempty]
    rfl

/-- The components of a joined path. -/
theorem components_join (base : Path) (h : LeadDown list) :
    (base.join ⟨Text.joinWith "/" list⟩).components =
      base.components ++ list.map Component.name := by
  rw [components_eq, components_eq, lead_join base h,
    names_join base (isAbsolute_joinWith h.proper), names_joinWith h.proper, List.filterMap_append,
    filterMap_component?_names h.isName, List.append_assoc]

/-- The components of a joined path to one name. -/
theorem components_join_name (base : Path) (h : IsName name) :
    (base.join ⟨name⟩).components = base.components ++ [.name name] := by
  have hjoin := components_join base (leadDown_singleton h)
  rwa [Text.joinWith_singleton] at hjoin

/-- The text before the last name of a path: nothing, or something up to a
slash. -/
def EndsInSlash (front : Text) : Prop := front = [] ∨ front.getLast? = some '/'

/-- The last of the names with slashes between them stands behind the others. -/
theorem exists_joinWith_concat (dirs : List Text) : ∃ down, EndsInSlash down ∧
    ∀ name, Text.joinWith "/" (dirs ++ [name]) = down ++ name := by
  by_cases hempty : dirs = []
  · exact ⟨[], .inl rfl, fun name => by simp [hempty]⟩
  · refine ⟨Text.joinWith "/" dirs ++ ['/'], .inr (by simp), fun name => ?_⟩
    rw [joinWith_append hempty (List.cons_ne_nil name []), Text.joinWith_singleton,
      List.append_assoc, List.singleton_append]

/-- Joined paths to files of one directory differ in their last names only. -/
theorem exists_front (base : Path) (hdirs : ∀ name ∈ dirs, IsName name) :
    ∃ front, EndsInSlash front ∧ ∀ name, IsName name →
      base.join ⟨Text.joinWith "/" (dirs ++ [name])⟩ = ⟨front ++ name⟩ := by
  obtain ⟨down, hdown, hjoin⟩ := exists_joinWith_concat dirs
  obtain ⟨before, hbefore, hbase⟩ : ∃ before, EndsInSlash before ∧ ∀ path : Path,
      path.isAbsolute = false → base.join path = ⟨before ++ path.text⟩ := by
    by_cases hend : base.text.isEmpty ∨ base.text.getLast? = some '/'
    · refine ⟨base.text, hend.imp List.isEmpty_iff.1 id, fun path hpath => ?_⟩
      rw [Path.join, if_neg (by simp [hpath]), if_pos hend]
    · refine ⟨base.text ++ ['/'], .inr (by simp), fun path hpath => ?_⟩
      rw [Path.join, if_neg (by simp [hpath]), if_neg hend, List.append_assoc]
      rfl
  refine ⟨before ++ down, ?_, fun name hname => ?_⟩
  · rcases hdown with rfl | hdown
    · rw [List.append_nil]
      exact hbefore
    · exact .inr (by rw [List.getLast?_append, hdown]; rfl)
  · rw [hbase _ (isAbsolute_joinWith (leadDown_concat hdirs hname).proper), hjoin,
      List.append_assoc]

/-- The last name of a path is its last piece, whatever name it is. -/
theorem exists_split (hfront : EndsInSlash front) : ∃ lead pieces, ∀ name, IsName name →
    (Path.mk (front ++ name)).split = (lead, pieces ++ [name]) := by
  have hpieces {name : Text} (hname : IsName name) (before : Text) :
      Path.splitSlashes (before ++ '/' :: name) = Path.splitSlashes before ++ [name] := by
    rw [splitSlashes_append, splitSlashes_eq_self hname.slash]
  rcases hfront with rfl | hslash
  · refine ⟨.none, [], fun name hname => ?_⟩
    have hsplit := split_joinWith (leadDown_singleton hname)
    rwa [Text.joinWith_singleton] at hsplit
  obtain ⟨before, rfl⟩ := List.getLast?_eq_some_iff.1 hslash
  have hfront (name : Text) : before ++ ['/'] ++ name = before ++ '/' :: name := by simp
  cases before with
  | nil =>
    refine ⟨.root, [], fun name hname => ?_⟩
    rw [hfront]
    exact congrArg (Path.Lead.root, ·) (splitSlashes_eq_self hname.slash)
  | cons c more =>
    by_cases hroot : c = '/'
    · refine ⟨.root, Path.splitSlashes more, fun name hname => ?_⟩
      rw [hfront, hroot]
      exact congrArg (Path.Lead.root, ·) (hpieces hname more)
    by_cases hdot : c = '.'
    · subst hdot
      cases more with
      | nil =>
        refine ⟨.here, [[]], fun name hname => ?_⟩
        exact congrArg (fun pieces => (Path.Lead.here, [] :: pieces))
          (splitSlashes_eq_self hname.slash)
      | cons d others =>
        by_cases hd : d = '/'
        · refine ⟨.here, [] :: Path.splitSlashes others, fun name hname => ?_⟩
          rw [hfront, hd]
          exact congrArg (fun pieces => (Path.Lead.here, [] :: pieces)) (hpieces hname others)
        · refine ⟨.none, Path.splitSlashes ('.' :: d :: others), fun name hname => ?_⟩
          rw [hfront, ← hpieces hname]
          simp [Path.split, hd]
    · refine ⟨.none, Path.splitSlashes (c :: more), fun name hname => ?_⟩
      rw [hfront, ← hpieces hname]
      simp [Path.split, hroot, hdot]

end Joining

section Extension

variable {front stem name : Text} {dirs : List Text}

/-- The file name of a path that ends with a name. -/
theorem fileName?_append (hfront : EndsInSlash front) (hname : IsName name) :
    (Path.mk (front ++ name)).fileName? = some name := by
  obtain ⟨lead, pieces, hsplit⟩ := exists_split hfront
  have hlast : [name].filterMap Path.component? = [Component.name name] :=
    filterMap_component?_names (by simpa using hname)
  rw [Path.fileName?, Path.components, hsplit name hname]
  dsimp only
  rw [List.filterMap_append, hlast, ← List.append_assoc, List.getLast?_concat]

/-- A stem with an extension is a name. -/
theorem isName_append (hstem : IsName stem) {extension : Text} (hslash : '/' ∉ extension)
    (hne : extension ≠ []) : IsName (stem ++ extension) := by
  have hpositive := List.length_pos_iff.2 hstem.ne_nil
  have hpositive' := List.length_pos_iff.2 hne
  refine ⟨by simp [hstem.ne_nil], by simp [hstem.slash, hslash], fun hhere => ?_, fun hup => ?_⟩
  · have hlength : (stem ++ extension).length = 1 := congrArg List.length hhere
    rw [List.length_append] at hlength
    omega
  · cases hstem' : stem with
    | nil => exact hstem.ne_nil hstem'
    | cons c more =>
      rw [hstem'] at hup
      obtain ⟨rfl, hmore⟩ := List.cons.inj hup
      cases more with
      | nil => exact hstem.ne_here hstem'
      | cons d others =>
        have hlength : (d :: others ++ extension).length = 1 := congrArg List.length hmore
        rw [List.length_append, List.length_cons] at hlength
        omega

/-- The extension of a source file. -/
theorem extensionOf?_ts (hstem : IsName stem) :
    extensionOf? (stem ++ ".ts") = some "ts".toList := by
  have hname : stem ++ ".ts" ≠ ".." := (isName_append hstem (by decide) (by decide)).ne_up
  have hreverse : (stem ++ ".ts").reverse = 's' :: 't' :: '.' :: stem.reverse := by simp
  rw [extensionOf?, if_neg hname, hreverse]
  simp [hstem.ne_nil]

/-- A stem is what stands before the last dot. -/
theorem stemOf_append_dot (hstem : IsName stem) : stemOf (stem ++ ".") = stem := by
  have hname : stem ++ "." ≠ ".." := (isName_append hstem (by decide) (by decide)).ne_up
  have hreverse : (stem ++ ".").reverse = '.' :: stem.reverse := by simp
  rw [stemOf, if_neg hname, hreverse]
  simp [hstem.ne_nil]

/-- Pieces whose last one counts are not trimmed. -/
theorem trimPieces_concat (pieces : List Text) (hname : IsName name) :
    Path.trimPieces (pieces ++ [name]) = pieces ++ [name] := by
  obtain ⟨component, hsome, -⟩ := component?_isSome hname.ne_nil hname.ne_here
  rw [Path.trimPieces, List.reverse_append, List.reverse_singleton, List.singleton_append,
    List.dropWhile_cons_of_neg (by simp [hsome])]
  simp

/-- A source file's path without its extension. -/
theorem withoutExtension_append (hfront : EndsInSlash front) (hstem : IsName stem) :
    (Path.mk (front ++ (stem ++ ".ts"))).withoutExtension = ⟨front ++ stem⟩ := by
  have hfile : IsName (stem ++ ".ts") := isName_append hstem (by decide) (by decide)
  have hdot : IsName (stem ++ ".") := isName_append hstem (by decide) (by decide)
  have hextension : (Path.mk (front ++ (stem ++ ".ts"))).extension? = some "ts".toList := by
    rw [Path.extension?, fileName?_append hfront hfile]
    exact extensionOf?_ts hstem
  have hcut : (front ++ (stem ++ ".ts")).take
      ((front ++ (stem ++ ".ts")).length - "ts".toList.length) = front ++ (stem ++ ".") := by
    have hwhole : front ++ (stem ++ ".ts") = (front ++ (stem ++ ".")) ++ "ts".toList := by simp
    rw [hwhole, List.length_append, Nat.add_sub_cancel, List.take_left]
  obtain ⟨lead, pieces, hsplit⟩ := exists_split hfront
  rw [Path.withoutExtension, hextension]
  dsimp only
  rw [hcut, fileName?_append hfront hdot]
  dsimp only
  rw [hsplit _ hdot]
  dsimp only
  rw [trimPieces_concat pieces hdot, List.dropLast_concat, stemOf_append_dot hstem]
  -- the path without extension has the same lead and the same pieces before its last one
  have hsame := unsplit_split ⟨front ++ stem⟩
  rwa [hsplit stem hstem] at hsame

/-- The path to a source file below a directory without its extension. -/
theorem withoutExtension_join (base : Path) (hdirs : ∀ name ∈ dirs, IsName name)
    (hstem : IsName stem) :
    (base.join ⟨Text.joinWith "/" (dirs ++ [stem ++ ".ts"])⟩).withoutExtension =
      base.join ⟨Text.joinWith "/" (dirs ++ [stem])⟩ := by
  obtain ⟨front, hfront, hjoin⟩ := exists_front base hdirs
  rw [hjoin _ (isName_append hstem (by decide) (by decide)), hjoin stem hstem,
    withoutExtension_append hfront hstem]

end Extension

section Resolving

variable {stem name : Text} {dirs front : List Text}

/-- What two lists have in common behind what they start with. -/
theorem commonLength_append (start first second : List Component) :
    commonLength (start ++ first) (start ++ second) = start.length + commonLength first second := by
  induction start with
  | nil => simp
  | cons component rest ih =>
    rw [List.cons_append, List.cons_append, commonLength, if_pos rfl, ih, List.length_cons]
    omega

/-- Names are followed down. -/
theorem resolve_names (start : List Component) (list : List Text) :
    resolve start (list.map Component.name) = start ++ list.map Component.name := by
  induction list generalizing start with
  | nil => simp [resolve]
  | cons name rest ih =>
    rw [List.map_cons, resolve, ih, List.append_assoc]
    rfl

/-- The names in a specifier, before the last one: one step up and down into the
schema directory, or down from the schema directory. -/
inductive Leads (stem : Text) (dirs : List Text) : List Text → Prop
  | outside : stem ≠ "types" → Leads stem dirs (".." :: "types" :: dirs)
  | inside : stem = "types" → Leads stem dirs dirs

/-- A specifier of these names. -/
def leading (front : List Text) (name : Text) : Text :=
  "./" ++ Text.joinWith "/" (front ++ [name])

/-- The schema directory is a name. -/
theorem isName_types : IsName ("types" : Text) := by decide

/-- The components of the path to a file below the schema directory. -/
theorem components_schemaPath (base : Path) (hdirs : ∀ name ∈ dirs, IsName name)
    (hname : IsName name) : (schemaPath base dirs name).components =
      base.components ++ ("types".toList :: (dirs ++ [name])).map Component.name := by
  rw [schemaPath, components_join _ (leadDown_concat hdirs hname),
    components_join_name base isName_types, List.append_assoc]
  rfl

/-- The specifier of a schema file, seen from the directory for its barrels. -/
theorem ofPath_schemaPath (base : Path) (hdirs : ∀ name ∈ dirs, IsName name)
    (hstem : IsName stem) : ∃ front, Leads stem dirs front ∧
      ofPath (base.join ⟨stem⟩) (schemaPath base dirs (stem ++ ".ts")) = leading front stem := by
  have htexts (list : List Text) : (list.map Component.name).map Component.text = list := by
    rw [List.map_map]
    exact List.map_id _
  have hdrop (rest : List Component) (count : Nat) :
      (base.components ++ rest).drop (base.components.length + count) = rest.drop count := by
    rw [← List.drop_drop, List.drop_left]
  have hgoal := components_schemaPath base hdirs hstem
  rw [schemaPath, ← withoutExtension_join _ hdirs hstem, ← schemaPath] at hgoal
  have hstart := components_join_name base hstem
  by_cases htypes : stem = "types"
  · refine ⟨dirs, .inside htypes, ?_⟩
    have hcommon : commonLength [.name stem]
        (("types".toList :: (dirs ++ [stem])).map Component.name) = 1 := by
      rw [List.map_cons, commonLength, if_pos (congrArg Component.name htypes)]
      rfl
    rw [ofPath, hgoal, hstart, commonLength_append, hcommon, hdrop, hdrop, leading]
    exact congrArg (fun texts => "./".toList ++ Text.joinWith "/" texts) (htexts _)
  · refine ⟨_, .outside htypes, ?_⟩
    have hcommon : commonLength [.name stem]
        (("types".toList :: (dirs ++ [stem])).map Component.name) = 0 := by
      rw [List.map_cons, commonLength, if_neg fun heq => htypes (Component.name.inj heq)]
    rw [ofPath, hgoal, hstart, commonLength_append, hcommon, hdrop, hdrop, leading]
    exact congrArg (fun texts => "./".toList ++ Text.joinWith "/" (".." :: texts))
      (htexts ("types".toList :: (dirs ++ [stem])))

/-- The components of a specifier. -/
theorem components_leading (hfront : ∀ name ∈ front, name ≠ [] ∧ '/' ∉ name) (hname : IsName name) :
    Path.components ⟨leading front name⟩ =
      .here :: (front ++ [name]).filterMap Path.component? := by
  have hsplit : Path.splitSlashes (Text.joinWith "/" (front ++ [name])) = front ++ [name] := by
    refine splitSlashes_joinWith (by simp) fun other hother => ?_
    rcases List.mem_append.1 hother with hother | hother
    · exact (hfront other hother).2
    · exact List.mem_singleton.1 hother ▸ hname.slash
  have hlead : Path.split ⟨leading front name⟩ = (.here, [] :: (front ++ [name])) :=
    congrArg (fun pieces => (Path.Lead.here, [] :: pieces)) hsplit
  rw [Path.components, hlead]
  rfl

/-- A specifier leads to a file below the schema directory. -/
theorem resolve_leading (base : Path) (hdirs : ∀ name ∈ dirs, IsName name) (hstem : IsName stem)
    (hname : IsName name) (hfront : Leads stem dirs front) :
    resolve (base.join ⟨stem⟩).components (Path.components ⟨leading front name⟩) =
      (schemaPath base dirs name).components := by
  have hlist := filterMap_component?_names (leadDown_concat hdirs hname).isName
  rw [components_schemaPath base hdirs hname, components_join_name base hstem]
  cases hfront with
  | inside htypes =>
    have hproper : ∀ name ∈ dirs, name ≠ [] ∧ '/' ∉ name := fun other hother =>
      ⟨(hdirs other hother).ne_nil, (hdirs other hother).slash⟩
    rw [components_leading hproper hname, resolve, hlist, resolve_names, htypes, List.append_assoc]
    rfl
  | outside _ =>
    have hproper : ∀ name ∈ "..".toList :: "types".toList :: dirs, name ≠ [] ∧ '/' ∉ name := by
      intro other hother
      rcases List.mem_cons.1 hother with rfl | hother
      · decide
      rcases List.mem_cons.1 hother with rfl | hother
      · decide
      · exact ⟨(hdirs other hother).ne_nil, (hdirs other hother).slash⟩
    have hnames : ("..".toList :: "types".toList :: dirs ++ [name]).filterMap Path.component? =
        .up :: .name "types" :: (dirs ++ [name]).map Component.name := by
      rw [← hlist]
      rfl
    rw [components_leading hproper hname, hnames, resolve, resolve, List.dropLast_concat, resolve,
      resolve_names, List.append_assoc]
    rfl

end Resolving

end InterfaceSchema.Specifier
