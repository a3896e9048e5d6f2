import InterfaceSchema.Config.Decode
import InterfaceSchema.Proofs.Json.Told
import Mathlib.Data.List.Pairwise

/-!
# Reading records alike

Two values may tell the same tree although they stand in different texts and the members
of their objects come in different orders. A record read from the one is the record read
from the other: fields may be stored in any order, and each of them is given at most once.
-/

namespace InterfaceSchema

open Json

variable {α β σ : Type} {tree : Tree} {name : Text → Text}

namespace Json.Tree

/-- The text, if the tree is one. -/
def text? : Tree → Option Text
  | .text value => some value
  | _ => none

/-- The truth value, if the tree is one. -/
def flag? : Tree → Option Bool
  | .flag value => some value
  | _ => none

end Json.Tree

/-- The two readers agree on all values that tell the tree: they give the same, or both
fail. -/
def ReadsAlike (tree : Tree) (read read' : Value → Except Fault α) : Prop :=
  ∀ lenient lenient' value value', Tells lenient tree value → Tells lenient' tree value' →
    (read value).toOption = (read' value').toOption

section Readers

/-- What is left of a step if only its result counts. -/
theorem toOption_bind (x : Except Fault α) (f : α → Except Fault β) :
    (x >>= f).toOption = x.toOption.bind fun a => (f a).toOption := by
  cases x <;> rfl

/-- The same for a result that is changed. -/
theorem toOption_map (x : Except Fault α) (f : α → β) :
    (x.map f).toOption = x.toOption.map f := by
  cases x <;> rfl

/-- What has been read is left. -/
theorem toOption_ok (a : α) : (Except.ok a : Except Fault α).toOption = some a := rfl

/-- A step that follows both readers keeps them alike. -/
theorem ReadsAlike.bind {read read' : Value → Except Fault α} (h : ReadsAlike tree read read')
    (f : α → Except Fault β) :
    ReadsAlike tree (fun value => read value >>= f) fun value => read' value >>= f := by
  intro lenient lenient' value value' htells htells'
  rw [toOption_bind, toOption_bind, h _ _ _ _ htells htells']

/-- Changing the result of both readers keeps them alike. -/
theorem ReadsAlike.map {read read' : Value → Except Fault α} (h : ReadsAlike tree read read')
    (f : α → β) :
    ReadsAlike tree (fun value => (read value).map f) fun value => (read' value).map f := by
  intro lenient lenient' value value' htells htells'
  rw [toOption_map, toOption_map, h _ _ _ _ htells htells']

/-- Only a null tells a null. -/
theorem ne_null_of_tells {lenient : Bool} {value : Value} (h : Tells lenient tree value)
    (hne : tree ≠ .null) (span : Span) : value ≠ .null span := by
  rintro rfl
  cases tree <;> simp [Tells] at h hne

/-- Anything but null is read. -/
theorem optional_of_ne_null {value : Value} (h : ∀ span, value ≠ .null span)
    (read : Value → Except Fault α) : Value.optional read value = (read value).map some := by
  cases value with
  | null span => exact absurd rfl (h span)
  | _ => rfl

/-- What may be left out is read alike if what is given is. -/
theorem ReadsAlike.optional {read read' : Value → Except Fault α}
    (h : ReadsAlike tree read read') :
    ReadsAlike tree (Value.optional read) (Value.optional read') := by
  intro lenient lenient' value value' htells htells'
  by_cases hnull : tree = .null
  · subst hnull
    obtain ⟨⟨span, rfl⟩, ⟨span', rfl⟩⟩ := And.intro htells htells'
    rfl
  · rw [optional_of_ne_null (ne_null_of_tells htells hnull),
      optional_of_ne_null (ne_null_of_tells htells' hnull), toOption_map, toOption_map,
      h _ _ _ _ htells htells']

/-- A text is read from values that tell a text. -/
theorem toOption_asText {lenient : Bool} {value : Value} (expected : Text)
    (h : Tells lenient tree value) : (Value.asText expected value).toOption = tree.text? := by
  cases tree <;> simp only [Tells] at h <;> grind [Value.asText, Except.toOption, Tree.text?]

/-- A truth value is read from values that tell one. -/
theorem toOption_asFlag {lenient : Bool} {value : Value} (h : Tells lenient tree value) :
    (Value.asFlag value).toOption = tree.flag? := by
  cases tree <;> simp only [Tells] at h <;> grind [Value.asFlag, Except.toOption, Tree.flag?]

/-- No list is read from values that tell something else. -/
theorem toOption_asList_eq_none {lenient : Bool} {value : Value} (h : Tells lenient tree value)
    (hne : ∀ items, tree ≠ .list items) : value.asList.toOption = none := by
  cases tree <;> simp only [Tells] at h <;> grind [Value.asList, Except.toOption]

/-- A text is read alike. -/
theorem readsAlike_asText (expected expected' : Text) :
    ReadsAlike tree (Value.asText expected) (Value.asText expected') := fun _ _ _ _ h h' =>
  (toOption_asText _ h).trans (toOption_asText _ h').symm

/-- A path or nothing is read alike. -/
theorem readsAlike_optionalPath :
    ReadsAlike tree ConfigForm.optionalPath ConfigForm.optionalPath :=
  (readsAlike_asText _ _).optional.map _

/-- A truth value or nothing is read alike. -/
theorem readsAlike_optionalFlag :
    ReadsAlike tree ConfigForm.optionalFlag ConfigForm.optionalFlag :=
  .optional fun _ _ _ _ h h' => (toOption_asFlag h).trans (toOption_asFlag h').symm

/-- Items that are read alike one by one are read alike together. -/
theorem mapM_alike {lenient lenient' : Bool} {items : List Tree} {values values' : List Value}
    {read read' : Value → Except Fault α} (h : TellsItems lenient items values)
    (h' : TellsItems lenient' items values') (halike : ∀ item ∈ items, ReadsAlike item read read') :
    (values.mapM read).toOption = (values'.mapM read').toOption := by
  induction items generalizing values values' with
  | nil => rw [TellsItems] at h h'; subst h h'; rfl
  | cons item items ih =>
    obtain ⟨value, values, rfl, hvalue, h⟩ := h
    obtain ⟨value', values', rfl, hvalue', h'⟩ := h'
    simp only [List.forall_mem_cons] at halike
    rw [List.mapM_cons, List.mapM_cons, toOption_bind, toOption_bind,
      halike.1 _ _ _ _ hvalue hvalue']
    congr 1
    funext a
    rw [toOption_bind, toOption_bind, ih h h' halike.2]

/-- A list is read alike if its items are. -/
theorem readsAlike_asList {read read' : Value → Except Fault α}
    (h : ∀ items, tree = .list items → ∀ item ∈ items, ReadsAlike item read read') :
    ReadsAlike tree (fun value => value.asList >>= List.mapM read)
      fun value => value.asList >>= List.mapM read' := by
  intro lenient lenient' value value' htells htells'
  by_cases hlist : ∃ items, tree = .list items
  · obtain ⟨items, rfl⟩ := hlist
    obtain ⟨values, span, rfl, htells⟩ := htells
    obtain ⟨values', span', rfl, htells'⟩ := htells'
    exact mapM_alike htells htells' (h items rfl)
  · rw [not_exists] at hlist
    rw [toOption_bind, toOption_bind, toOption_asList_eq_none htells hlist,
      toOption_asList_eq_none htells' hlist]
    rfl

end Readers

section Forms

variable {form form' : RecordForm σ} {rule rule' : SurplusRule}

namespace RecordForm

/-- The field that an entry gives, by its key. -/
def given? (form : RecordForm σ) (entry : Entry) : Option (RecordField σ) :=
  entry.key.toOption.bind fun key => form.fields.find? (RecordField.accepts key)

/-- The record with the field that the entry gives, if it can be read. -/
def step (form : RecordForm σ) (record : Option σ) (entry : Entry) : Option σ :=
  match form.given? entry with
  | none => record
  | some field => record.bind fun record => (field.store entry.value record).toOption

/-- The two entries do not give the same field. -/
def Apart (form : RecordForm σ) (entry other : Entry) : Prop :=
  ∀ field ∈ form.given? entry, ∀ field' ∈ form.given? other, field.name ≠ field'.name

instance (form : RecordForm σ) : Std.Symm form.Apart :=
  ⟨fun _ _ h field hfield other hother => (h other hother field hfield).symm⟩

/-- No entry mends a record that could not be read. -/
theorem foldl_step_none (entries : List Entry) : entries.foldl form.step none = none := by
  induction entries with
  | nil => rfl
  | cons entry entries ih =>
    rw [List.foldl_cons, show form.step none entry = none by rw [step]; split <;> rfl, ih]

/-- Entries with readable keys that give no field twice are stored one after another. -/
theorem toOption_readEntries (span : Span) (seen : List Text) (record : σ) {entries : List Entry}
    (hkeys : ∀ entry ∈ entries, (∃ key, entry.key = .ok key) ∧ entry.value.skip = .ok ())
    (hseen : ∀ entry ∈ entries, ∀ field ∈ form.given? entry, field.name ∉ seen)
    (hapart : entries.Pairwise form.Apart) :
    (form.readEntries span seen record entries).toOption =
      entries.foldl form.step (some record) := by
  induction entries generalizing seen record with
  | nil => rfl
  | cons entry entries ih =>
    obtain ⟨key, afterKey, value⟩ := entry
    simp only [List.forall_mem_cons] at hkeys hseen
    obtain ⟨⟨⟨key, rfl⟩, hskip⟩, hkeys⟩ := hkeys
    obtain ⟨hfirst, hapart⟩ := List.pairwise_cons.mp hapart
    rw [readEntries, List.foldl_cons, step, given?]
    simp only [bind, Except.bind, Except.toOption, Option.bind]
    cases hfield : form.fields.find? (RecordField.accepts key) with
    | none =>
      have hskip : value.skip = .ok () := hskip
      simp only [hskip]
      exact ih seen record hkeys hseen.2 hapart
    | some field =>
      have hgiven : form.given? ⟨.ok key, afterKey, value⟩ = some field := hfield
      have hnew : seen.contains field.name = false := by simpa using hseen.1 field hgiven
      simp only [hnew, Bool.false_eq_true, if_false]
      cases hstore : field.store value record with
      | error fault => exact (foldl_step_none entries).symm
      | ok record =>
        refine ih _ record hkeys (fun entry hentry other hother => ?_) hapart
        rw [List.mem_cons, not_or]
        exact ⟨(hfirst entry hentry field hgiven other hother).symm,
          hseen.2 entry hentry other hother⟩

/-- Two fields may be stored in any order. -/
def Commute (field other : RecordField σ) : Prop := ∀ value value' record,
  ((field.store value record).toOption.bind fun record => (other.store value' record).toOption) =
    (other.store value' record).toOption.bind fun record => (field.store value record).toOption

instance : Std.Symm (@Commute σ) := ⟨fun _ _ h value value' record => (h value' value record).symm⟩

/-- The fields of a form may be stored in any order. -/
def Commutes (form : RecordForm σ) : Prop := form.fields.Pairwise Commute

/-- Fields with different names may be stored in any order. -/
theorem Commutes.of_name_ne (h : form.Commutes) {field other : RecordField σ}
    (hfield : field ∈ form.fields) (hother : other ∈ form.fields) (hne : field.name ≠ other.name) :
    Commute field other :=
  List.Pairwise.forall h hfield hother fun heq => hne (congrArg RecordField.name heq)

/-- What a key gives is a field of the form that accepts the key. -/
theorem mem_of_given? {entry : Entry} {field : RecordField σ} (h : field ∈ form.given? entry) :
    field ∈ form.fields ∧ ∃ key, entry.key = .ok key ∧ field.accepts key = true := by
  obtain ⟨key | key, afterKey, value⟩ := entry
  · cases h
  · exact ⟨List.mem_of_find?_eq_some h, key, rfl, List.find?_some h⟩

/-- The order of entries that give no field twice does not count. -/
theorem foldl_step_perm (h : form.Commutes) {entries entries' : List Entry}
    (hperm : entries.Perm entries') (hapart : entries.Pairwise form.Apart) (record : Option σ) :
    entries.foldl form.step record = entries'.foldl form.step record := by
  refine hperm.foldl_eq' (fun entry hentry other hother record => ?_) record
  by_cases heq : entry = other
  · rw [heq]
  have hnames : form.Apart entry other := hapart.forall hentry hother heq
  simp only [step]
  cases hgiven : form.given? entry with
  | none => rfl
  | some field =>
    cases hgiven' : form.given? other with
    | none => rfl
    | some field' =>
      have hcommute := h.of_name_ne (mem_of_given? hgiven).1 (mem_of_given? hgiven').1
        (hnames field hgiven field' hgiven')
      cases record with
      | none => rfl
      | some record => exact hcommute entry.value other.value record

/-- All names of a field get the name that the field goes by. -/
def Named (form : RecordForm σ) (name : Text → Text) : Prop :=
  ∀ field ∈ form.fields, ∀ key ∈ field.name :: field.others, name key = field.name

/-- A key that a field accepts gets the name of the field. -/
theorem Named.of_accepts (h : form.Named name) {field : RecordField σ}
    (hfield : field ∈ form.fields) {key : Text} (haccepts : field.accepts key = true) :
    name key = field.name := by
  refine h field hfield key ?_
  rw [RecordField.accepts, Bool.or_eq_true, beq_iff_eq, List.contains_iff_mem] at haccepts
  exact List.mem_cons.mpr (haccepts.imp_left Eq.symm)

/-- Two fields have the same names, and the values of trees without repeated keys are
stored alike. -/
structure FieldsAlike (name : Text → Text) (field field' : RecordField σ) : Prop where
  sameName : field.name = field'.name
  sameOthers : field.others = field'.others
  store : ∀ tree : Tree, tree.DistinctBy name → ∀ record,
    ReadsAlike tree (field.store · record) (field'.store · record)

/-- Two forms have fields that are stored alike in any order, and every key that a field
accepts gets the name of the field. -/
structure Alike (name : Text → Text) (form form' : RecordForm σ) : Prop where
  fields : List.Forall₂ (FieldsAlike name) form.fields form'.fields
  start : form.start = form'.start
  commutes : form.Commutes
  commutes' : form'.Commutes
  named : form.Named name
  named' : form'.Named name

/-- Under the same key the two forms have fields that are alike, or neither has one. -/
theorem find?_alike {fields fields' : List (RecordField σ)}
    (h : List.Forall₂ (FieldsAlike name) fields fields') (key : Text) :
    Option.Rel (FieldsAlike name) (fields.find? (RecordField.accepts key))
      (fields'.find? (RecordField.accepts key)) := by
  induction h with
  | nil => exact .none
  | @cons field field' _ _ hfirst _ ih =>
    have haccepts : field'.accepts key = field.accepts key := by
      simp [RecordField.accepts, hfirst.sameName, hfirst.sameOthers]
    cases hfield : field.accepts key with
    | true => simpa [hfield, haccepts] using hfirst
    | false => simpa [hfield, haccepts] using ih

variable {lenient lenient' : Bool}

/-- Entries that hold the same member make the same step. -/
theorem step_alike (h : Alike name form form') {member : TreeMember} {entry entry' : Entry}
    (htells : TellsMember lenient member entry) (htells' : TellsMember lenient' member entry')
    (hdistinct : member.value.DistinctBy name) (record : Option σ) :
    form.step record entry = form'.step record entry' := by
  have hrel := find?_alike h.fields member.key
  simp only [step, given?, htells.1, htells'.1, Except.toOption, Option.bind_some]
  generalize form.fields.find? (RecordField.accepts member.key) = given at hrel ⊢
  generalize form'.fields.find? (RecordField.accepts member.key) = given' at hrel ⊢
  cases hrel with
  | none => rfl
  | some hfields =>
    cases record with
    | none => rfl
    | some record => exact hfields.store _ hdistinct record _ _ _ _ htells.2 htells'.2

/-- Entries that hold the same members lead to the same record. -/
theorem foldl_step_alike (h : Alike name form form') {members : List TreeMember}
    {matched matched' : List Entry} (htells : TellsMembers lenient members matched)
    (htells' : TellsMembers lenient' members matched')
    (hdistinct : ∀ member ∈ members, member.value.DistinctBy name) (record : Option σ) :
    matched.foldl form.step record = matched'.foldl form'.step record := by
  rw [tellsMembers_iff] at htells htells'
  induction htells generalizing matched' record with
  | nil => cases htells'; rfl
  | cons hfirst _ ih =>
    obtain ⟨_, _, hfirst', hrest', rfl⟩ := List.forall₂_cons_left_iff.mp htells'
    simp only [List.forall_mem_cons] at hdistinct
    rw [List.foldl_cons, List.foldl_cons, step_alike h hfirst hfirst' hdistinct.1]
    exact ih hrest' hdistinct.2 _

/-- Members whose keys get different names give no field twice. -/
theorem apart_of_nodup {members : List TreeMember} {matched : List Entry}
    (hnamed : form.Named name) (htells : TellsMembers lenient members matched)
    (hnodup : (members.map fun member => name member.key).Nodup) :
    matched.Pairwise form.Apart := by
  have hkeys : (matched.map fun entry => entry.key.toOption.map name).Nodup := by
    have hmap : (matched.map fun entry => entry.key.toOption.map name) =
        (members.map fun member => name member.key).map some := by
      have := congrArg (List.map fun key => key.toOption.map name)
        (map_key_of_tellsMembers htells)
      rw [List.map_map, List.map_map] at this
      rw [List.map_map]
      exact this
    rw [hmap]
    exact hnodup.map (Option.some_injective Text)
  refine (List.pairwise_map.mp hkeys).imp fun hne field hfield field' hfield' heq => hne ?_
  obtain ⟨hmem, key, hkey, haccepts⟩ := mem_of_given? hfield
  obtain ⟨hmem', key', hkey', haccepts'⟩ := mem_of_given? hfield'
  simp [hkey, hkey', Except.toOption, hnamed.of_accepts hmem haccepts,
    hnamed.of_accepts hmem' haccepts', heq]

/-- A record is read from a table by storing the members that it holds. -/
theorem toOption_read_table (hnamed : form.Named name) (hcommutes : form.Commutes)
    {members : List TreeMember} {matched entries : List Entry}
    (htells : TellsMembers lenient members matched) (hperm : matched.Perm entries)
    (hnodup : (members.map fun member => name member.key).Nodup) (span : Span) :
    (form.read rule (.table entries span)).toOption =
      matched.foldl form.step (some form.start) := by
  have hapart := apart_of_nodup hnamed htells hnodup
  rw [foldl_step_perm hcommutes hperm hapart]
  refine toOption_readEntries span [] form.start (fun entry hentry => ?_)
    (fun _ _ _ _ => List.not_mem_nil) (hperm.pairwise hapart fun h => symm h)
  obtain ⟨member, -, hmember⟩ :=
    exists_of_forall₂ (tellsMembers_iff.mp htells) (hperm.mem_iff.mpr hentry)
  exact ⟨⟨_, hmember.1⟩, hmember.2.skip⟩

/-- Fields that are alike read items that tell the same trees alike, and leave as many of
them. -/
theorem readItems_alike {fields fields' : List (RecordField σ)}
    (hfields : List.Forall₂ (FieldsAlike name) fields fields') {items : List Tree}
    {values values' : List Value} (htells : TellsItems lenient items values)
    (htells' : TellsItems lenient' items values') (hdistinct : ∀ item ∈ items, item.DistinctBy name)
    (record : σ) :
    (readItems record fields values).toOption.map (Prod.map id List.isEmpty) =
      (readItems record fields' values').toOption.map (Prod.map id List.isEmpty) := by
  rw [tellsItems_iff] at htells htells'
  induction hfields generalizing items values values' record with
  | nil => cases htells <;> cases htells' <;> rfl
  | cons hfirst _ ih =>
    cases htells with
    | nil => cases htells'; rfl
    | @cons item _ items _ hvalue htells =>
      cases htells' with
      | cons hvalue' htells' =>
        simp only [List.forall_mem_cons] at hdistinct
        rw [readItems, readItems, toOption_bind, toOption_bind, Option.map_bind, Option.map_bind,
          hfirst.store item hdistinct.1 record _ _ _ _ hvalue hvalue']
        congr 1
        funext record
        exact ih htells htells' hdistinct.2 record

/-- Items that are left over are a fault unless they are ignored. -/
theorem surplusFault_cons (hrule : rule ≠ .ignored) (span : Span) (length : Nat) (item : Value)
    (extra : List Value) : ∃ fault, surplusFault rule span length (item :: extra) = some fault := by
  cases rule with
  | ignored => exact absurd rfl hrule
  | counted => exact ⟨_, rfl⟩
  | trailing =>
    simp only [surplusFault]
    split <;> exact ⟨_, rfl⟩

/-- A record is read from a list if no item is left over. -/
theorem toOption_read_list (hrule : rule ≠ .ignored) (values : List Value) (span : Span) :
    (form.read rule (.list values span)).toOption =
      ((readItems form.start form.fields values).toOption.map (Prod.map id List.isEmpty)).bind
        fun result => if result.2 then some result.1 else none := by
  rw [read, toOption_bind, Option.bind_map]
  congr 1
  funext result
  obtain ⟨record, _ | ⟨item, extra⟩⟩ := result
  · rfl
  · obtain ⟨fault, hfault⟩ := surplusFault_cons hrule span values.length item extra
    simp only [hfault]
    rfl

/-- No record is read from anything but a list or a table. -/
theorem toOption_read_eq_none {value : Value} (h : Tells lenient tree value)
    (hlist : ∀ items, tree ≠ .list items) (hobject : ∀ members, tree ≠ .object members) :
    (form.read rule value).toOption = none := by
  cases tree <;> simp only [Tells] at h <;> grind [read, Except.toOption]

/-- Forms that are alike read trees without repeated keys alike. -/
theorem Alike.readsAlike (h : Alike name form form') (hrule : rule ≠ .ignored)
    (hrule' : rule' ≠ .ignored) (hdistinct : tree.DistinctBy name) :
    ReadsAlike tree (form.read rule) (form'.read rule') := by
  intro lenient lenient' value value' htells htells'
  cases tree with
  | list items =>
    obtain ⟨values, span, rfl, htells⟩ := htells
    obtain ⟨values', span', rfl, htells'⟩ := htells'
    rw [Tree.distinctBy_list] at hdistinct
    rw [toOption_read_list hrule, toOption_read_list hrule', h.start,
      readItems_alike h.fields htells htells' hdistinct]
  | object members =>
    obtain ⟨entries, span, matched, rfl, hperm, htells⟩ := htells
    obtain ⟨entries', span', matched', rfl, hperm', htells'⟩ := htells'
    rw [Tree.distinctBy_object] at hdistinct
    rw [toOption_read_table h.named h.commutes htells hperm hdistinct.1,
      toOption_read_table h.named' h.commutes' htells' hperm' hdistinct.1, h.start,
      foldl_step_alike h htells htells' hdistinct.2]
  | _ =>
    rw [toOption_read_eq_none htells nofun nofun, toOption_read_eq_none htells' nofun nofun]

end RecordForm

end Forms

end InterfaceSchema
