import SavedFilter.Proofs.Json.Readable
import SavedFilter.Proofs.Settings.Precedence
import SavedFilter.Proofs.Settings.Sections

/-!
# Unknown keys in a settings file

A member of the file whose key is none of the sections sets nothing; its key is listed in a warning.
A member of a section whose key is not that of its setting does not even do that.  So such members
can be put in and left out anywhere:

* `reads_of_sectionAlike`   a section with other unknown members is read alike;
* `reads_of_read`, `read_text`   a file is read by its members;
* `UnknownEdit`, `read_of_edit`   a file with other unknown members has the same settings;
* `load_unknown`            what is loaded, for every request, and the one warning.
-/

namespace SavedFilter

namespace FileSettings
open Json Json.Reader

/-! ## sections -/

section
variable {α : Type} {name : String} {read : List Char → Except Json.Fault (α × List Char)}

/-- two texts of a section that differ at most in members with other keys than its setting's -/
def SectionAlike (name : String) (body body' : List Char) : Prop :=
  body = body' ∨ ∃ i i' : ObjectText, body = i.text ∧ body' = i'.text ∧
    i.SameAt (· == name) (fun _ => Eq) i'

theorem nullable_section_text (i : ObjectText) (n : Nat) :
    nullable (sectionOf n name read) i.text =
      (members (setting name read) n (i.inside ++ membersText i.members ++ i.back) >>= fun r =>
        (atMostOne (r.1.filterMap (·.2))).map (·, r.2)).map fun r => (some r.1, r.2) := by
  rw [← sectionOf_object]
  simp only [nullable, i.skipSpace_text, Char.reduceEq, if_false]

theorem section_text {i : ObjectText} {found : List (String × Option (Option α))} {o : Option α}
    (hfound : List.Forall₂ (MemberText.ReadsAs fun _ => setting name read) i.members found)
    (ho : atMostOne (found.filterMap (·.2)) = .ok o) :
    nullable (sectionOf i.text.length name read) i.text = .ok (some o, i.back) := by
  have hlen := i.length_lt_text.le
  rw [nullable_section_text, members_text i.isSpace_inside hfound hlen hlen]
  show ((atMostOne (found.filterMap (·.2))).map (·, i.back)).map _ = _
  rw [ho]
  rfl

variable (h : IsValueReader fun _ => read)
include h

theorem reads_of_section {i : ObjectText} {n : Nat} {r : Option (Option α) × List Char}
    (hr : nullable (sectionOf n name read) i.text = .ok r) :
    ∃ found o, List.Forall₂ (MemberText.ReadsAs fun _ => setting name read) i.members found ∧
      atMostOne (found.filterMap (·.2)) = .ok o ∧ r = (some o, i.back) := by
  rw [nullable_section_text] at hr
  obtain ⟨q, hq, rfl⟩ := map_eq_ok.mp hr
  obtain ⟨p, hp, hq⟩ := bind_eq_ok.mp hq
  obtain ⟨o, ho, rfl⟩ := map_eq_ok.mp hq
  have hsetting := fun key => isValueReader_setting h name key
  obtain ⟨hback, hfound⟩ := reads_of_members i.isSpace_inside hsetting 0 hp
  exact ⟨p.1, o, hfound, ho, by rw [hback]⟩

omit h in
theorem eq_none_of_setting (_ : Nat) (key : String) (cs : List Char)
    (r : Option (Option α) × List Char) (hr : setting name read key cs = .ok r)
    (hkey : (key == name) = false) : r.1 = .none := by
  rw [setting, if_neg (by simpa using hkey)] at hr
  obtain ⟨rest, -, rfl⟩ := map_eq_ok.mp hr
  rfl

/-- a member of a section with another key is passed over, whatever value it has -/
theorem exists_reads_of_other (m : MemberText) (hkey : (m.key == name) = false) :
    ∃ a, ReadsAs (fun _ => setting name read m.key) m.body a := by
  obtain ⟨gap, hgap, hbody⟩ := m.isText_body
  have hread : setting name read m.key m.body = .ok (.none, gap) := by
    rw [setting, if_neg (by simpa using hkey), hbody]
    rfl
  exact ⟨_, readsAs_of_read (n := 0) (isValueReader_setting h name m.key).isLocal hread hgap⟩

/-- **A section with other unknown members is read alike.** -/
theorem reads_of_sectionAlike {body body' : List Char} (hbody : SectionAlike name body body')
    {v : Option (Option α)}
    (hv : ReadsAs (fun n => nullable (sectionOf n name read)) body v) :
    ReadsAs (fun n => nullable (sectionOf n name read)) body' v := by
  rcases hbody with rfl | ⟨i, i', rfl, rfl, hsame⟩
  · exact hv
  obtain ⟨gap, -, hread⟩ := hv.exists_read (Nat.lt_succ_self _)
  obtain ⟨found, o, hfound, ho, hr⟩ := reads_of_section h hread
  obtain ⟨rfl, rfl⟩ := Prod.mk.inj hr
  obtain ⟨found', hfound', hfilter⟩ := hsame.exists_found hfound (fun _ _ _ _ he => he ▸ id)
    fun m _ => exists_reads_of_other h m
  have hpicked := filterMap_eq_of_filter id eq_none_of_setting hfound hfound' hfilter
  have ho' : atMostOne (found'.filterMap (·.2)) = .ok o := (congrArg atMostOne hpicked).trans ho
  have hlocal := (isValueReader_nullable (isValueReader_section h name)).isLocal
  exact readsAs_of_read hlocal (section_text hfound' ho') i'.isSpace_back

/-- a section that opens with a brace is the text of an object -/
theorem exists_text_of_section {body : List Char} {v : Option (Option α)}
    (hv : ReadsAs (fun n => nullable (sectionOf n name read)) body v)
    (hbrace : (skipSpace body).head? = some '{') : ∃ i : ObjectText, i.text = body := by
  obtain ⟨gap, hgap, hread⟩ := hv.exists_read (Nat.lt_succ_self _)
  obtain ⟨ds, hds⟩ := List.head?_eq_some_iff.mp hbrace
  simp only [nullable, hds, Char.reduceEq, if_false, sectionOf_object] at hread
  obtain ⟨q, hq, hr⟩ := map_eq_ok.mp hread
  obtain ⟨p, hp, hq⟩ := bind_eq_ok.mp hq
  obtain ⟨o, -, rfl⟩ := map_eq_ok.mp hq
  obtain rfl : p.2 = gap := congrArg Prod.snd hr
  exact exists_objectText (fun key => isValueReader_setting h name key) 0 hds hp hgap

end

/-! ## the file -/

theorem read_objectText (o : ObjectText) :
    read o.text = members (member (o.text.length + 1)) (o.text.length + 1)
      (o.inside ++ membersText o.members ++ o.back) >>= atEnd >>= ofMembers := by
  simp only [read, o.skipSpace_text]

/-- **A file is read by its members.** -/
theorem read_text {o : ObjectText} {found : List (String × Member)}
    (h : List.Forall₂ (MemberText.ReadsAs member) o.members found) :
    read o.text = ofMembers found := by
  have hlen := o.length_lt_text.le.trans (Nat.le_succ _)
  rw [read_objectText, members_text o.isSpace_inside h hlen hlen]
  show atEnd (found, o.back) >>= ofMembers = _
  rw [atEnd_of_isSpace o.isSpace_back]
  rfl

theorem reads_of_read {o : ObjectText} {f : FileSettings} (h : read o.text = .ok f) :
    ∃ found, List.Forall₂ (MemberText.ReadsAs member) o.members found ∧
      ofMembers found = .ok f := by
  rw [read_objectText] at h
  obtain ⟨found, hfound, hf⟩ := bind_eq_ok.mp h
  obtain ⟨r, hr, hend⟩ := bind_eq_ok.mp hfound
  obtain ⟨-, hreads⟩ := reads_of_members o.isSpace_inside isValueReader_member _ hr
  exact ⟨found, eq_of_atEnd hend ▸ hreads, hf⟩

theorem exists_text_of_read {cs : List Char} {f : FileSettings} (h : read cs = .ok f) :
    ∃ o : ObjectText, o.text = cs := by
  unfold read at h
  split at h
  · next ds hds =>
    obtain ⟨found, hfound, -⟩ := bind_eq_ok.mp h
    obtain ⟨r, hr, hend⟩ := bind_eq_ok.mp hfound
    exact exists_objectText isValueReader_member _ hds hr (isSpace_of_atEnd hend)
  · cases h

/-! ### its members -/

def isKnown (key : String) : Bool := key == "compiler" || key == "output"

/-- the unknown keys of a file, each once in the order of first appearance -/
def unknownKeys (o : ObjectText) : List String :=
  ((o.members.map MemberText.key).filter (! isKnown ·)).eraseDups

/-- the text of a value that may stand in a file; the file nests one level deeper -/
def IsReadable (cs : List Char) : Prop :=
  ∃ v, value (cs.length + 1) (maxNesting - 1) cs >>= atEnd = .ok v

/-- two texts of one section -/
def SectionsAlike (key : String) (body body' : List Char) : Prop :=
  key = "compiler" ∧ SectionAlike "comparison" body body' ∨
    key = "output" ∧ SectionAlike "pretty" body body'

/-- a file with other unknown members, in itself and in its sections; the new ones of the file have
readable values -/
structure UnknownEdit (o o' : ObjectText) : Prop where
  sameAt : o.SameAt isKnown SectionsAlike o'
  readable : ∀ m ∈ o'.members, isKnown m.key = false → m ∈ o.members ∨ IsReadable m.body

section
variable {n : Nat} {key : String} {cs : List Char} {r : Member × List Char}

theorem member_compiler (n : Nat) (cs : List Char) :
    member n "compiler" cs =
      (nullable (sectionOf n "comparison" textSetting) cs).map fun r => (.compiler r.1, r.2) := by
  rw [member, if_pos rfl]

theorem member_output (n : Nat) (cs : List Char) :
    member n "output" cs =
      (nullable (sectionOf n "pretty" boolSetting) cs).map fun r => (.output r.1, r.2) := by
  rw [member, if_neg (by decide), if_pos rfl]

theorem member_unknown (h : isKnown key = false) (n : Nat) (cs : List Char) :
    member n key cs = (value n (maxNesting - 1) cs).map fun r => (.unknown, r.2) := by
  obtain ⟨hcompiler, houtput⟩ := by simpa [isKnown] using h
  rw [member, if_neg hcompiler, if_neg houtput]

theorem isUnknown_of_member (h : member n key cs = .ok r) : (r.1 == .unknown) = ! isKnown key := by
  cases hk : isKnown key with
  | false =>
    rw [member_unknown hk] at h
    obtain ⟨p, -, rfl⟩ := map_eq_ok.mp h
    rfl
  | true =>
    rw [isKnown, Bool.or_eq_true, beq_iff_eq, beq_iff_eq] at hk
    rcases hk with rfl | rfl
    · rw [member_compiler] at h
      obtain ⟨p, -, rfl⟩ := map_eq_ok.mp h
      rfl
    · rw [member_output] at h
      obtain ⟨p, -, rfl⟩ := map_eq_ok.mp h
      rfl

end

theorem unknownNames_eq {o : ObjectText} {found : List (String × Member)}
    (h : List.Forall₂ (MemberText.ReadsAs member) o.members found) :
    unknownNames found = unknownKeys o := by
  have hunknown := forall_of_reads (P := fun k m => (m == .unknown) = ! isKnown k)
    (fun _ _ _ _ => isUnknown_of_member) h
  rw [unknownNames, unknownKeys, keys_collapse, List.filter_congr hunknown, ← keys_of_reads h,
    List.filter_map]
  rfl

theorem pick_eq_none_of_member {γ : Type} {pick : Member → Option γ} (hpick : pick .unknown = .none)
    (n : Nat) (key : String) (cs : List Char) (r : Member × List Char)
    (h : member n key cs = .ok r) (hkey : isKnown key = false) : pick r.1 = .none := by
  have hunknown := isUnknown_of_member h
  rw [hkey, Bool.not_false, beq_iff_eq] at hunknown
  rw [hunknown, hpick]

/-- a member that is a section is read as the section is -/
theorem readsAs_member_iff {α : Type} {read : List Char → Except Json.Fault (α × List Char)}
    (h : IsValueReader fun _ => read) {key name : String} {f : Option (Option α) → Member}
    (hmember : ∀ n cs, member n key cs =
      (nullable (sectionOf n name read) cs).map fun r => (f r.1, r.2))
    {body : List Char} {m : Member} :
    ReadsAs (fun n => member n key) body m ↔
      ∃ v, ReadsAs (fun n => nullable (sectionOf n name read)) body v ∧ f v = m := by
  rw [funext fun n => funext (hmember n)]
  exact readsAs_map_iff (isValueReader_nullable (isValueReader_section h name)).isLocal

theorem reads_of_sectionsAlike {key : String} {body body' : List Char} {m : Member}
    (hbody : SectionsAlike key body body') (hm : ReadsAs (fun n => member n key) body m) :
    ReadsAs (fun n => member n key) body' m := by
  rcases hbody with ⟨rfl, hbody⟩ | ⟨rfl, hbody⟩
  · obtain ⟨v, hv, rfl⟩ := (readsAs_member_iff isValueReader_textSetting member_compiler).mp hm
    have hv' := reads_of_sectionAlike isValueReader_textSetting hbody hv
    exact (readsAs_member_iff isValueReader_textSetting member_compiler).mpr ⟨v, hv', rfl⟩
  · obtain ⟨v, hv, rfl⟩ := (readsAs_member_iff isValueReader_boolSetting member_output).mp hm
    have hv' := reads_of_sectionAlike isValueReader_boolSetting hbody hv
    exact (readsAs_member_iff isValueReader_boolSetting member_output).mpr ⟨v, hv', rfl⟩

theorem exists_reads_of_readable {key : String} {cs : List Char} (hkey : isKnown key = false)
    (h : IsReadable cs) : ∃ m, ReadsAs (fun n => member n key) cs m := by
  obtain ⟨v, h⟩ := h
  obtain ⟨r, hr, hend⟩ := bind_eq_ok.mp h
  have hread : member (cs.length + 1) key cs = .ok (.unknown, r.2) := by
    rw [member_unknown hkey, hr]
    rfl
  have hgap := isSpace_of_atEnd hend
  exact ⟨_, readsAs_of_read (isValueReader_member key).isLocal hread hgap⟩

/-- **A file with other unknown members has the same settings.** -/
theorem read_of_edit {o o' : ObjectText} {f : FileSettings} (h : read o.text = .ok f)
    (hedit : UnknownEdit o o') :
    f.unknown = unknownKeys o ∧ read o'.text = .ok { f with unknown := unknownKeys o' } := by
  obtain ⟨found, hfound, hf⟩ := reads_of_read h
  have hother : ∀ m ∈ o'.members, isKnown m.key = false →
      ∃ a, ReadsAs (fun n => member n m.key) m.body a := by
    intro m hm hkey
    rcases hedit.readable m hm hkey with hold | hnew
    · exact exists_of_reads hfound m hold
    · exact exists_reads_of_readable hkey hnew
  obtain ⟨found', hfound', hfilter⟩ := hedit.sameAt.exists_found hfound
    (fun _ _ _ _ => reads_of_sectionsAlike) hother
  have htoken := filterMap_eq_of_filter Member.token? (pick_eq_none_of_member rfl) hfound hfound'
    hfilter
  have hpretty := filterMap_eq_of_filter Member.pretty? (pick_eq_none_of_member rfl) hfound hfound'
    hfilter
  obtain ⟨token, ht, hf⟩ := bind_eq_ok.mp hf
  obtain ⟨pretty, hp, hf⟩ := bind_eq_ok.mp hf
  rw [← Except.ok.inj hf]
  refine ⟨unknownNames_eq hfound, ?_⟩
  rw [read_text hfound', ofMembers, htoken, hpretty, ht, hp, unknownNames_eq hfound']
  rfl

/-- a section that is an object is the text of one -/
theorem exists_text_of_member {key : String} {body : List Char} {m : Member}
    (hkey : isKnown key = true) (hm : ReadsAs (fun n => member n key) body m)
    (hbrace : (skipSpace body).head? = some '{') : ∃ i : ObjectText, i.text = body := by
  rw [isKnown, Bool.or_eq_true, beq_iff_eq, beq_iff_eq] at hkey
  rcases hkey with rfl | rfl
  · obtain ⟨v, hv, -⟩ := (readsAs_member_iff isValueReader_textSetting member_compiler).mp hm
    exact exists_text_of_section isValueReader_textSetting hv hbrace
  · obtain ⟨v, hv, -⟩ := (readsAs_member_iff isValueReader_boolSetting member_output).mp hm
    exact exists_text_of_section isValueReader_boolSetting hv hbrace

end FileSettings

namespace Settings
open FileSettings Json

/-- the warnings for a file with these members: none if all of them are known, and else one that
lists the keys of the others -/
def unknownWarnings (o : ObjectText) : List Warning :=
  if o.members.all (isKnown ·.key) then []
  else [⟨"Unknown fields in config file (possible typos)",
    some (", ".intercalate (unknownKeys o))⟩]

theorem unknownKeys_eq_nil {o : ObjectText} :
    unknownKeys o = [] ↔ o.members.all (isKnown ·.key) = true := by
  rw [List.all_eq_true]
  constructor
  · intro h m hm
    by_contra hk
    have hmem : m.key ∈ unknownKeys o := by
      refine List.mem_eraseDups.mpr (List.mem_filter.mpr ⟨List.mem_map_of_mem hm, ?_⟩)
      rw [Bool.eq_false_iff.mpr hk, Bool.not_false]
    rw [h] at hmem
    cases hmem
  · intro h
    have hnil : (o.members.map MemberText.key).filter (! isKnown ·) = [] := by
      refine List.filter_eq_nil_iff.mpr fun k hk => ?_
      obtain ⟨m, hm, rfl⟩ := List.mem_map.mp hk
      rw [h m hm]
      exact Bool.false_ne_true
    rw [unknownKeys, hnil]
    rfl

theorem unknownWarning_eq {o : ObjectText} {f : FileSettings} (h : f.unknown = unknownKeys o) :
    unknownWarning f = unknownWarnings o := by
  simp only [unknownWarning, unknownWarnings, h, List.isEmpty_iff, unknownKeys_eq_nil]

theorem load_of_read {files : Files} {r : Request} {s : String} {f : FileSettings}
    (hs : (files r.path).text? = some s) (hf : FileSettings.read s.toList = .ok f) :
    load files r = .ok (merge r f, unknownWarning f) := by
  have hthere : ¬ (files r.path).isMissing := by
    cases he : files r.path with
    | missing =>
      rw [he] at hs
      cases hs
    | unreadable => exact Bool.false_ne_true
    | content _ => exact Bool.false_ne_true
  rw [load_eq, if_neg hthere, readFile, hs]
  show ((FileSettings.read s.toList).mapError _).map _ = _
  rw [hf]
  rfl

/-- **Unknown keys only warn.**  A file that can be read is the text of an object, and so is each of
its sections that opens with a brace; whatever unknown members are put in and left out there, the
settings are the same for every request, and one warning lists the unknown keys of the file. -/
theorem load_unknown {s : String} {f : FileSettings} (hs : FileSettings.read s.toList = .ok f) :
    (∃ o : ObjectText, o.text = s.toList) ∧ ∀ o : ObjectText, o.text = s.toList →
      (∀ m ∈ o.members, isKnown m.key = true → (Reader.skipSpace m.body).head? = some '{' →
        ∃ i : ObjectText, i.text = m.body) ∧
      ∀ (o' : ObjectText) (s' : String), UnknownEdit o o' → o'.text = s'.toList →
        ∀ (files files' : Files) (r : Request), (files r.path).text? = some s →
          (files' r.path).text? = some s' →
          ∃ c, load files r = .ok (c, unknownWarnings o) ∧
            load files' r = .ok (c, unknownWarnings o') := by
  refine ⟨exists_text_of_read hs, fun o ho => ?_⟩
  rw [← ho] at hs
  refine ⟨fun m hm hkey hbrace => ?_, fun o' s' hedit ho' files files' r hfiles hfiles' => ?_⟩
  · obtain ⟨found, hfound, -⟩ := reads_of_read hs
    obtain ⟨v, hv⟩ := exists_of_reads hfound m hm
    exact exists_text_of_member hkey hv hbrace
  · obtain ⟨hunknown, hread⟩ := read_of_edit hs hedit
    refine ⟨merge r f, ?_, ?_⟩
    · rw [load_of_read hfiles (ho ▸ hs), unknownWarning_eq hunknown]
    · rw [load_of_read hfiles' (ho' ▸ hread), unknownWarning_eq rfl]
      rfl

theorem isSpace_of_mem_nil : ∀ c ∈ ([] : List Char), Reader.isSpace c = true :=
  List.forall_mem_nil _

theorem isText_of_skip {cs : List Char} (h : Skip.value cs = .ok []) : IsText cs :=
  ⟨[], isSpace_of_mem_nil, h⟩

/-- an object that is written without white space -/
def tight (ms : List MemberText) : ObjectText :=
  ⟨[], [], ms, [], isSpace_of_mem_nil, isSpace_of_mem_nil, isSpace_of_mem_nil⟩

def comparisonText : MemberText :=
  ⟨"comparison", "\"comparison\":".toList, "\"a\"".toList, by decide +kernel,
    isText_of_skip (by decide +kernel)⟩

/-- a number that is no double -/
def hugeText : MemberText :=
  ⟨"x", "\"x\":".toList, "1e400".toList, by decide +kernel, isText_of_skip (by decide +kernel)⟩

def oneText (key : String) (h : Reader.key ('"' :: key.toList ++ "\":".toList) = .ok (key, [])) :
    MemberText :=
  ⟨key, '"' :: key.toList ++ "\":".toList, ['1'], h, isText_of_skip (by decide +kernel)⟩

def plainFile : ObjectText :=
  tight [⟨"compiler", "\"compiler\":".toList, (tight [comparisonText]).text, by decide +kernel,
    isText_of_skip (by decide +kernel)⟩, oneText "x" (by decide +kernel)]

/-- the same with members that are not known, in the file and in its section -/
def notedFile : ObjectText :=
  tight [oneText "y" (by decide +kernel),
    ⟨"compiler", "\"compiler\":".toList, (tight [hugeText, comparisonText]).text,
      by decide +kernel, isText_of_skip (by decide +kernel)⟩,
    oneText "y" (by decide +kernel), oneText "x" (by decide +kernel)]

theorem unknownEdit_notedFile : UnknownEdit plainFile notedFile where
  sameAt := by
    refine .cons ⟨rfl, .inl ⟨rfl, .inr ⟨_, _, rfl, rfl, ?_⟩⟩⟩ .nil
    exact .cons ⟨rfl, rfl⟩ .nil
  readable m hm hkey := by
    have hall : ∀ m ∈ notedFile.members, isKnown m.key = true ∨ m.body = ['1'] :=
      List.forall_mem_cons.mpr ⟨.inr rfl, List.forall_mem_cons.mpr ⟨.inl rfl,
        List.forall_mem_cons.mpr ⟨.inr rfl, List.forall_mem_singleton.mpr (.inr rfl)⟩⟩⟩
    rcases hall m hm with hknown | hbody
    · rw [hknown] at hkey
      cases hkey
    · rw [hbody]
      exact .inr ⟨_, rfl⟩

theorem load_unknown_noted :
    ∃ c, load (fun _ => .content (String.ofList plainFile.text).toUTF8) ⟨none, none, true⟩ =
        .ok (c, [⟨"Unknown fields in config file (possible typos)", some "x"⟩]) ∧
      load (fun _ => .content (String.ofList notedFile.text).toUTF8) ⟨none, none, true⟩ =
        .ok (c, [⟨"Unknown fields in config file (possible typos)", some "y, x"⟩]) := by
  have hread : FileSettings.read (String.ofList plainFile.text).toList =
      .ok ⟨some "a", none, ["x"]⟩ :=
    toOption_eq_some.mp (by decide +kernel)
  obtain ⟨-, h⟩ := load_unknown hread
  obtain ⟨-, hload⟩ := h plainFile String.toList_ofList.symm
  exact hload notedFile _ unknownEdit_notedFile String.toList_ofList.symm _ _ _
    (by decide +kernel) (by decide +kernel)

/-- The grammar of JSON alone is not enough: the value of an unknown key may be a number that is too
great for the reader. -/
theorem exists_unknown_refused :
    (tight []).SameAt isKnown SectionsAlike (tight [hugeText]) ∧
      (tight []).text = "\x7b\x7d".toList ∧
      (tight [hugeText]).text = "\x7b\"x\":1e400\x7d".toList ∧
      FileSettings.read "\x7b\x7d".toList = .ok FileSettings.none ∧
      (FileSettings.read "\x7b\"x\":1e400\x7d".toList).toOption = Option.none :=
  ⟨.nil, by decide +kernel, by decide +kernel, rfl,
    Option.isNone_iff_eq_none.mp (by decide +kernel)⟩

end Settings

end SavedFilter
