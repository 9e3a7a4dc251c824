import ModelScale.Command.Rescale
import ModelScale.Proofs.Command.Disk

/-
# One run of the rescale command

What a run that succeeds has read, worked out and written.  Most of a run is talk: it says what it
does and asks what it does not know, and leaves the disk alone.  Main statements:

* `Session.Told`: what stays as it is when a run talks;
* `Dialogue.run_bind_eq_ok`: a run in sequence succeeds when both parts do;
* `Dialogue.Harmless.told`: a dialogue that writes nothing is talk;
* `Dialogue.rescale_eq_ok`: the course of a run with both scripts and the scale given.
-/

namespace ModelScale

open Text

/-! ## 1. Talk -/

/-- The output does not take every text, and this is what is in the way of one. -/
def Output.Refuses (o : Output) (fault : OutputFault) : Prop :=
  ∃ offered t, o.refusal offered t = some fault

namespace Session

/-- The second session is the first one after some talk. -/
structure Told (s t : Session) : Prop where
  disk_eq : t.disk = s.disk
  refusal_eq : t.output.refusal = s.output.refusal

theorem Told.refl (s : Session) : s.Told s := ⟨rfl, rfl⟩

theorem Told.trans {s t u : Session} (h : s.Told t) (h' : t.Told u) : s.Told u :=
  ⟨h'.disk_eq.trans h.disk_eq, h'.refusal_eq.trans h.refusal_eq⟩

theorem Told.refuses {s t : Session} (h : s.Told t) {fault : OutputFault}
    (hf : t.output.Refuses fault) : s.output.Refuses fault := by
  obtain ⟨offered, text, hf⟩ := hf
  exact ⟨offered, text, h.refusal_eq ▸ hf⟩

section Print

variable {s t : Session} {text : Text} {fault? : Option OutputFault}

theorem told_of_print (h : s.print text = (fault?, t)) : s.Told t := by
  obtain ⟨-, rfl⟩ := Prod.mk.inj h
  refine ⟨rfl, ?_⟩
  show (s.output.offer text).2.refusal = s.output.refusal
  unfold Output.offer
  split <;> rfl

theorem refuses_of_print {fault : OutputFault} (h : s.print text = (some fault, t)) :
    s.output.Refuses fault := by
  obtain ⟨hf, -⟩ := Prod.mk.inj h
  have hf : (s.output.offer text).1 = some fault := hf
  unfold Output.offer at hf
  split at hf
  · rename_i f hr
    obtain rfl := Option.some.inj hf
    exact ⟨_, _, hr⟩
  · cases hf

end Print

theorem told_of_sayAll {messages : List Message} {s t : Session} {fault? : Option OutputFault}
    (h : s.sayAll messages = (fault?, t)) : s.Told t := by
  induction messages generalizing s with
  | nil =>
    obtain ⟨-, rfl⟩ := Prod.mk.inj h
    exact .refl s
  | cons m messages ih =>
    rw [sayAll] at h
    split at h
    · rename_i u hu
      exact (told_of_print hu).trans (ih h)
    · rename_i fault u hu
      obtain ⟨-, rfl⟩ := Prod.mk.inj h
      exact told_of_print hu

theorem refuses_of_sayAll {messages : List Message} {s t : Session} {fault : OutputFault}
    (h : s.sayAll messages = (some fault, t)) : s.output.Refuses fault := by
  induction messages generalizing s with
  | nil => cases h
  | cons m messages ih =>
    rw [sayAll] at h
    split at h
    · rename_i u hu
      exact (told_of_print hu).refuses (ih h)
    · rename_i f u hu
      obtain ⟨hf, -⟩ := Prod.mk.inj h
      obtain rfl := Option.some.inj hf
      exact refuses_of_print hu

theorem told_of_poseTo {q : Question} {answers : List Text} {s t : Session}
    {r : Except Failure Text} (h : s.poseTo q answers = (r, t)) : s.Told t := by
  have hinput : ∀ {s t : Session} {input : List Text}, s.Told t → s.Told { t with input } :=
    fun h => ⟨h.disk_eq, h.refusal_eq⟩
  induction answers generalizing s with
  | nil =>
    rw [poseTo] at h
    split at h
    · rename_i u hu
      obtain ⟨-, rfl⟩ := Prod.mk.inj h
      exact hinput (told_of_print hu)
    · rename_i fault u hu
      obtain ⟨-, rfl⟩ := Prod.mk.inj h
      exact told_of_print hu
  | cons answer rest ih =>
    rw [poseTo] at h
    split at h
    · rename_i u hu
      have hu : s.Told { u with input := rest } := hinput (told_of_print hu)
      split at h
      · obtain ⟨-, rfl⟩ := Prod.mk.inj h
        exact hu
      · split at h
        · rename_i v hv
          exact hu.trans ((told_of_print hv).trans (ih h))
        · rename_i fault v hv
          obtain ⟨-, rfl⟩ := Prod.mk.inj h
          exact hu.trans (told_of_print hv)
    · rename_i fault u hu
      obtain ⟨-, rfl⟩ := Prod.mk.inj h
      exact told_of_print hu

end Session

namespace Dialogue

variable {α β : Type}

/-! ## 2. Runs in sequence -/

theorem run_bind_eq_ok {d : Dialogue α} {f : α → Dialogue β} {s u : Session} {b : β} :
    (d >>= f).run s = (.ok b, u) ↔ ∃ a t, d.run s = (.ok a, t) ∧ (f a).run t = (.ok b, u) := by
  have hrun : (d >>= f).run s = (d.bind f).run s := rfl
  rw [hrun, run_bind]
  constructor
  · intro h
    split at h
    · rename_i a t hd
      exact ⟨a, t, hd, h⟩
    · cases h
  · rintro ⟨a, t, hd, h⟩
    rw [hd]
    exact h

theorem run_bind_of_ok {d : Dialogue α} {f : α → Dialogue β} {s t : Session} {a : α}
    (h : d.run s = (.ok a, t)) : (d >>= f).run s = (f a).run t := by
  have hrun : (d >>= f).run s = (d.bind f).run s := rfl
  rw [hrun, run_bind, h]

theorem run_bind_of_error {d : Dialogue α} {f : α → Dialogue β} {s t : Session} {e : Failure}
    (h : d.run s = (.error e, t)) : (d >>= f).run s = (.error e, t) := by
  have hrun : (d >>= f).run s = (d.bind f).run s := rfl
  rw [hrun, run_bind, h]

theorem run_sayAll (messages : List Message) (s : Session) :
    (sayAll messages).run s =
      match s.sayAll messages with
      | (none, t) => (.ok (), t)
      | (some fault, t) => (.error (.unsaid fault), t) := by
  induction messages generalizing s with
  | nil => rfl
  | cons m messages ih =>
    have hrun : (sayAll (m :: messages)).run s = (say m (sayAll messages)).run s := rfl
    rw [hrun, run, Session.sayAll]
    cases s.say m with
    | mk fault? t =>
      cases fault? with
      | none => exact ih t
      | some fault => rfl

theorem run_sayAll_eq_error {messages : List Message} {s t : Session} {e : Failure} :
    (sayAll messages).run s = (.error e, t) ↔
      ∃ fault, e = .unsaid fault ∧ s.sayAll messages = (some fault, t) := by
  rw [run_sayAll]
  cases s.sayAll messages with
  | mk fault? v =>
    cases fault? with
    | none => simp
    | some fault =>
      simp only [Prod.mk.injEq, Except.error.injEq, Option.some.injEq]
      constructor
      · rintro ⟨rfl, rfl⟩
        exact ⟨fault, rfl, rfl, rfl⟩
      · rintro ⟨_, rfl, rfl, rfl⟩
        exact ⟨rfl, rfl⟩

theorem run_pure_eq_ok {a b : α} {s t : Session} :
    (pure a : Dialogue α).run s = (.ok b, t) ↔ a = b ∧ s = t := by
  have hrun : (pure a : Dialogue α).run s = (.ok a, s) := rfl
  rw [hrun]
  simp

theorem run_fail_ne_ok {e : Failure} {s t : Session} {a : α} :
    (fail e : Dialogue α).run s ≠ (.ok a, t) := by
  intro h
  cases h

theorem run_ofExcept_eq_ok {ε : Type} {failure : ε → Failure} {x : Except ε α} {a : α}
    {s t : Session} : (ofExcept failure x).run s = (.ok a, t) ↔ x = .ok a ∧ s = t := by
  cases x with
  | ok b => simp [ofExcept, run]
  | error e => simp [ofExcept, run]

/-! ## 3. Dialogues that write nothing -/

/-- The dialogue writes nothing. -/
def Harmless : Dialogue α → Prop
  | done _ => True
  | fail _ => True
  | say _ next => next.Harmless
  | ask _ next => ∀ answer, (next answer).Harmless
  | expand _ next => ∀ path, (next path).Harmless
  | isFile _ next => ∀ found, (next found).Harmless
  | names next => ∀ directory names, (next directory names).Harmless
  | read _ next => ∀ content, (next content).Harmless
  | write _ _ _ => False

/-- **A dialogue that writes nothing is talk.** -/
theorem Harmless.told {d : Dialogue α} (h : d.Harmless) {s t : Session} {r : Except Failure α}
    (hr : d.run s = (r, t)) : s.Told t := by
  induction d generalizing s with
  | done a =>
    obtain ⟨-, rfl⟩ := Prod.mk.inj hr
    exact .refl s
  | fail e =>
    obtain ⟨-, rfl⟩ := Prod.mk.inj hr
    exact .refl s
  | say m next ih =>
    rw [run] at hr
    split at hr
    · rename_i u hu
      exact (Session.told_of_print hu).trans (ih h hr)
    · rename_i fault u hu
      obtain ⟨-, rfl⟩ := Prod.mk.inj hr
      exact Session.told_of_print hu
  | ask q next ih =>
    rw [run] at hr
    split at hr
    · rename_i answer u hu
      exact (Session.told_of_poseTo hu).trans (ih _ (h _) hr)
    · rename_i e u hu
      obtain ⟨-, rfl⟩ := Prod.mk.inj hr
      exact Session.told_of_poseTo hu
  | expand p next ih => exact ih _ (h _) hr
  | isFile p next ih => exact ih _ (h _) hr
  | names next ih => exact ih _ _ (h _ _) hr
  | read p next ih => exact ih _ (h _) hr
  | write p c next ih => exact h.elim

theorem Harmless.bind {d : Dialogue α} {f : α → Dialogue β} (hd : d.Harmless)
    (hf : ∀ a, (f a).Harmless) : (d >>= f).Harmless := by
  induction d with
  | done a => exact hf a
  | fail e => trivial
  | say m next ih => exact ih hd
  | ask q next ih => exact fun answer => ih answer (hd answer)
  | expand p next ih => exact fun path => ih path (hd path)
  | isFile p next ih => exact fun found => ih found (hd found)
  | names next ih => exact fun directory names => ih directory names (hd directory names)
  | read p next ih => exact fun content => ih content (hd content)
  | write p c next ih => exact hd.elim

theorem harmless_sayAll (messages : List Message) : (sayAll messages).Harmless := by
  induction messages with
  | nil => trivial
  | cons m messages ih => exact ih

theorem harmless_ofExcept {ε : Type} (failure : ε → Failure) (x : Except ε α) :
    (ofExcept failure x).Harmless := by
  cases x <;> trivial

theorem harmless_expanded (path : Path) : (expanded path).Harmless := by
  intro path?
  cases path? <;> trivial

theorem harmless_confirm (options : Options) (question : String) :
    (confirm options question).Harmless := by
  unfold confirm
  split
  · trivial
  · intro answer
    trivial

theorem harmless_checkFlexes (options : Options) (lines : List Text) :
    (checkFlexes options lines).Harmless := by
  unfold checkFlexes
  split
  · trivial
  · refine (harmless_sayAll _).bind fun _ => (harmless_confirm _ _).bind ?_
    intro sure
    split <;> trivial

theorem harmless_announce (settings : Settings) (name : Text) (request : Request) :
    (announce settings name request).Harmless := by
  have htold : (do
      let factor ← ofFault request.shownRelative
      sayAll [.info ("Scaling ".toList ++ name ++ " to ".toList ++ request.shownNew ++
        " (x".toList ++ factor ++ " of the current size)".toList)]).Harmless :=
    (harmless_ofExcept _ _).bind fun _ => harmless_sayAll _
  refine (harmless_ofExcept _ _).bind ?_
  intro risky
  split
  · exact (harmless_sayAll _).bind fun _ => htold
  · exact htold

theorem harmless_decideRename (options : Options) (lines : List Text) :
    (decideRename options lines).Harmless := by
  unfold decideRename
  split
  · trivial
  · split
    · trivial
    · exact harmless_confirm _ _

/-! ## 4. Files -/

theorem run_expanded_eq_ok {path p : Path} {s t : Session} :
    (expanded path).run s = (.ok p, t) ↔ s.disk.expand? path = some p ∧ s = t := by
  rw [expanded, run]
  cases s.disk.expand? path <;> simp [run]

theorem run_openDocument_eq_ok {path : Path} {document : Document} {s t : Session} :
    (openDocument path).run s = (.ok document, t) ↔
      s.disk.document? path = some document ∧ s = t := by
  unfold openDocument
  rw [run_bind_eq_ok]
  simp only [run_expanded_eq_ok, Disk.document?, Option.bind_eq_some_iff, run]
  constructor
  · rintro ⟨p, _, ⟨hp, rfl⟩, h⟩
    cases hread : s.disk.read p with
    | error e =>
      rw [hread] at h
      cases h
    | ok content =>
      rw [hread] at h
      cases hd : Document.ofBytes? content with
      | none =>
        simp only [hd, Option.elim_none] at h
        cases h
      | some found =>
        simp only [hd, Option.elim_some] at h
        cases h
        exact ⟨⟨p, hp, content, by rw [hread]; rfl, hd⟩, rfl⟩
  · rintro ⟨⟨p, hp, content, hread, hd⟩, rfl⟩
    refine ⟨p, s, ⟨hp, rfl⟩, ?_⟩
    simp only [toOption_eq_some.mp hread, hd, Option.elim_some]
    rfl

theorem run_saveDocument_eq_ok {path : Path} {document : Document} {s t : Session} {u : Unit} :
    (saveDocument path document).run s = (.ok u, t) ↔
      ∃ disk, s.disk.save? path document.toBytes = some disk ∧ t = { s with disk } := by
  unfold saveDocument
  rw [run_bind_eq_ok]
  simp only [run_expanded_eq_ok, Disk.save?, Option.bind_eq_some_iff, toOption_eq_some]
  constructor
  · rintro ⟨p, _, ⟨hp, rfl⟩, h⟩
    rw [run] at h
    split at h
    · rename_i disk hw
      obtain ⟨-, rfl⟩ := Prod.mk.inj h
      exact ⟨disk, ⟨p, hp, hw⟩, rfl⟩
    · exact absurd h run_fail_ne_ok
  · rintro ⟨disk, ⟨p, hp, hw⟩, rfl⟩
    refine ⟨p, s, ⟨hp, rfl⟩, ?_⟩
    rw [run, hw]
    rfl

theorem run_findsFile_eq_ok {path : Path} {found : Bool} {s t : Session} :
    (findsFile path).run s = (.ok found, t) ↔ s.disk.isFile path = .ok found ∧ s = t := by
  rw [findsFile, run]
  cases s.disk.isFile path <;> simp [run]

/-! ## 5. What was given -/

section Given

variable {options : Options} {s t : Session}

theorem run_chooseScript_eq_ok {name : Text} (hn : options.script = some name) {path : Path}
    (h : (chooseScript options).run s = (.ok path, t)) :
    s.disk.argument? name = some path ∧ s.disk.isFile path = .ok true ∧ s = t := by
  unfold chooseScript at h
  rw [hn] at h
  obtain ⟨p, _, hexpanded, h⟩ := run_bind_eq_ok.mp h
  obtain ⟨hp, rfl⟩ := run_expanded_eq_ok.mp hexpanded
  obtain ⟨found, u, hfound, h⟩ := run_bind_eq_ok.mp h
  obtain ⟨hfile, rfl⟩ := run_findsFile_eq_ok.mp hfound
  cases found with
  | true =>
    obtain ⟨rfl, rfl⟩ := run_pure_eq_ok.mp h
    exact ⟨hp, hfile, rfl⟩
  | false => exact absurd h run_fail_ne_ok

theorem run_requestScale_eq_ok {answer : Text} (ha : options.scale = some answer)
    {previous : Decimal} {request : Request}
    (h : (requestScale {} options previous).run s = (.ok request, t)) :
    acceptScale {} answer previous = .ok request ∧ s = t := by
  unfold requestScale at h
  rw [ha] at h
  dsimp only at h
  split at h
  · exact absurd h run_fail_ne_ok
  · exact run_ofExcept_eq_ok.mp h

theorem run_findBones_eq_ok {name : Text} (hn : options.bones = some name)
    (hs : options.skipBones = false) {script : Path} {lines : List Text} {path? : Option Path}
    (h : (findBones options script lines).run s = (.ok path?, t)) :
    ∃ path, s.disk.argument? name = some path ∧ path? = some path ∧ s = t := by
  unfold findBones at h
  rw [hn, hs] at h
  dsimp only at h
  rw [if_neg Bool.false_ne_true] at h
  split at h
  · exact absurd h run_fail_ne_ok
  · obtain ⟨p, _, hexpanded, h⟩ := run_bind_eq_ok.mp h
    obtain ⟨hp, rfl⟩ := run_expanded_eq_ok.mp hexpanded
    obtain ⟨found, u, hfound, h⟩ := run_bind_eq_ok.mp h
    obtain ⟨-, rfl⟩ := run_findsFile_eq_ok.mp hfound
    split at h
    · obtain ⟨rfl, rfl⟩ := run_pure_eq_ok.mp h
      exact ⟨p, hp, rfl, rfl⟩
    · exact absurd h run_fail_ne_ok

theorem run_openBones_eq_ok {path : Path} {opened : Option Opened}
    (h : (openBones (some path)).run s = (.ok opened, t)) :
    ∃ document, opened = some (path, document) ∧ s.disk.document? path = some document ∧
      s = t := by
  obtain ⟨document, u, hread, h⟩ := run_bind_eq_ok.mp h
  obtain ⟨hd, rfl⟩ := run_openDocument_eq_ok.mp hread
  obtain ⟨rfl, rfl⟩ := run_pure_eq_ok.mp h
  exact ⟨document, rfl, hd, rfl⟩

end Given

/-! ## 6. Writing -/

theorem harmless_reportModel (result : RescaledScript) (request : Request) :
    (reportModel result request).Harmless := by
  refine (harmless_ofExcept _ _).bind fun _ => (harmless_sayAll _).bind fun _ =>
    (harmless_ofExcept _ _).bind fun splits => ?_
  split
  · trivial
  · exact harmless_sayAll _

/-- The model script is saved with the lines of its rescale. -/
theorem run_rescaleModel_eq_ok {path : Path} {document : Document} {request : Request}
    {rename : Bool} {s t : Session} {u : Unit}
    (h : (rescaleModel {} path document request rename).run s = (.ok u, t)) :
    ∃ result, rescaleScript {} document.lines request rename = .ok result ∧
      s.disk.save? path (document.withLines result.lines).toBytes = some t.disk := by
  obtain ⟨result, t1, hresult, h⟩ := run_bind_eq_ok.mp h
  obtain ⟨hr, rfl⟩ := run_ofExcept_eq_ok.mp hresult
  obtain ⟨_, t2, hsave, h⟩ := run_bind_eq_ok.mp h
  obtain ⟨disk, hw, rfl⟩ := run_saveDocument_eq_ok.mp hsave
  have hrest : t.disk = disk := ((harmless_reportModel _ _).told h).disk_eq
  exact ⟨result, hr, hrest ▸ hw⟩

end Dialogue

/-- The second disk is the first one with a document saved again, if one of its lines is
another. -/
def Disk.Resaved (path : Path) (document : Document) (lines : List Text) (d d' : Disk) : Prop :=
  (lines = document.lines ∧ d' = d) ∨
    (lines ≠ document.lines ∧ d.save? path (document.withLines lines).toBytes = some d')

namespace Dialogue

/-- The procedural bones are saved with the lines of their rescale, if that changes any. -/
theorem run_rescaleBonesDocument_eq_ok {path : Path} {document : Document} {new previous : Quantity}
    {s t : Session} {r : RescaledBones}
    (h : (rescaleBonesDocument path document new previous true).run s = (.ok r, t)) :
    rescaleBones {} document.lines new previous = .ok r ∧
      s.disk.Resaved path document r.lines t.disk ∧ t = { s with disk := t.disk } := by
  unfold rescaleBonesDocument at h
  obtain ⟨r', t3, hresult, h⟩ := run_bind_eq_ok.mp h
  obtain ⟨hok, rfl⟩ := run_ofExcept_eq_ok.mp hresult
  rw [Bool.true_and] at h
  split at h
  · rename_i hne
    obtain ⟨_, t4, hsave, h⟩ := run_bind_eq_ok.mp h
    obtain ⟨disk, hw, rfl⟩ := run_saveDocument_eq_ok.mp hsave
    obtain ⟨rfl, rfl⟩ := run_pure_eq_ok.mp h
    exact ⟨hok, Or.inr ⟨by simpa using hne, hw⟩, rfl⟩
  · rename_i heq
    obtain ⟨rfl, rfl⟩ := run_pure_eq_ok.mp h
    exact ⟨hok, Or.inl ⟨by simpa using heq, rfl⟩, rfl⟩

theorem run_rescaleOpened_eq_ok {path : Path} {document : Document} {request : Request}
    {s t : Session} {u : Unit}
    (h : (rescaleOpened request (some (path, document))).run s = (.ok u, t)) :
    ∃ r, rescaleBones {} document.lines request.new request.previous = .ok r ∧
      s.disk.Resaved path document r.lines t.disk := by
  obtain ⟨_, t1, hsay, h⟩ := run_bind_eq_ok.mp h
  obtain ⟨r, t2, hr, h⟩ := run_bind_eq_ok.mp h
  obtain ⟨hok, hsaved, -⟩ := run_rescaleBonesDocument_eq_ok hr
  rw [((harmless_sayAll _).told h).disk_eq, ← ((harmless_sayAll _).told hsay).disk_eq]
  exact ⟨r, hok, hsaved⟩

end Dialogue

/-! ## 7. The whole run -/

/-- What a run with both scripts reads, works out and writes. -/
structure Course where
  model : Document
  bones : Document
  previous : Decimal
  request : Request
  rename : Bool
  script : RescaledScript
  helpers : RescaledBones
  /-- The disk once the model script is written. -/
  between : Disk

/-- The course leads from one disk to another, for this answer to the question for a scale. -/
structure Course.Leads (c : Course) (script bones : Path) (answer : Text) (d d' : Disk) :
    Prop where
  model_eq : d.document? script = some c.model
  bones_eq : d.document? bones = some c.bones
  previous_eq : scaleInForce {} c.model.lines = .ok c.previous
  request_eq : acceptScale {} answer c.previous = .ok c.request
  script_eq : rescaleScript {} c.model.lines c.request c.rename = .ok c.script
  between_eq : d.save? script (c.model.withLines c.script.lines).toBytes = some c.between
  helpers_eq : rescaleBones {} c.bones.lines c.request.new c.request.previous = .ok c.helpers
  resaved : c.between.Resaved bones c.bones c.helpers.lines d'

/-- **The course of a run** with both scripts and the scale given.  Both scripts are read before
either is written. -/
theorem Dialogue.rescale_eq_ok {options : Options} {script bones answer : Text}
    (hs : options.script = some script) (hb : options.bones = some bones)
    (hskip : options.skipBones = false) (ha : options.scale = some answer) {s u : Session}
    (h : (rescale options).run s = (.ok (), u)) :
    ∃ (c : Course) (p q : Path), s.disk.argument? script = some p ∧
      s.disk.argument? bones = some q ∧ c.Leads p q answer s.disk u.disk := by
  unfold rescale at h
  obtain ⟨path, _, hpath, h⟩ := run_bind_eq_ok.mp h
  obtain ⟨hp, -, rfl⟩ := run_chooseScript_eq_ok hs hpath
  obtain ⟨model, _, hmodel, h⟩ := run_bind_eq_ok.mp h
  obtain ⟨hmodel', rfl⟩ := run_openDocument_eq_ok.mp hmodel
  obtain ⟨_, s1, hflex, h⟩ := run_bind_eq_ok.mp h
  have h1 := (harmless_checkFlexes _ _).told hflex
  obtain ⟨previous, _, hprevious, h⟩ := run_bind_eq_ok.mp h
  obtain ⟨hprevious', rfl⟩ := run_ofExcept_eq_ok.mp hprevious
  obtain ⟨request, _, hrequest, h⟩ := run_bind_eq_ok.mp h
  obtain ⟨hrequest', rfl⟩ := run_requestScale_eq_ok ha hrequest
  obtain ⟨_, s2, hsay, h⟩ := run_bind_eq_ok.mp h
  have h2 := (harmless_announce _ _ _).told hsay
  obtain ⟨rename, s3, hrename, h⟩ := run_bind_eq_ok.mp h
  have h3 := (harmless_decideRename _ _).told hrename
  -- nothing is written before this point
  have hkept : s3.disk = s.disk := ((h1.trans h2).trans h3).disk_eq
  obtain ⟨path?, _, hfind, h⟩ := run_bind_eq_ok.mp h
  obtain ⟨q, hq, rfl, rfl⟩ := run_findBones_eq_ok hb hskip hfind
  obtain ⟨opened, _, hopen, h⟩ := run_bind_eq_ok.mp h
  obtain ⟨bones', rfl, hbones, rfl⟩ := run_openBones_eq_ok hopen
  obtain ⟨_, s4, hwrite, h⟩ := run_bind_eq_ok.mp h
  obtain ⟨result, hresult, hbetween⟩ := run_rescaleModel_eq_ok hwrite
  obtain ⟨helpers, hhelpers, hdisk⟩ := run_rescaleOpened_eq_ok h
  rw [hkept] at hq hbones hbetween
  exact ⟨⟨model, bones', previous, request, rename, result, helpers, s4.disk⟩, path, q, hp, hq,
    hmodel', hbones, hprevious', hrequest', hresult, hbetween, hhelpers, hdisk⟩

theorem Failure.exitCode_ne_zero (failure : Failure) : failure.exitCode ≠ 0 := by
  cases failure <;> exact Nat.succ_ne_zero _

/-- A run with exit code zero has succeeded. -/
theorem run_of_runCommand {options : Options} {s t : Session}
    (h : runCommand options s = (.ok 0, t)) : (Dialogue.rescale options).run s = (.ok (), t) := by
  unfold runCommand at h
  split at h
  · rename_i u hu
    obtain ⟨-, rfl⟩ := Prod.mk.inj h
    exact hu
  · split at h
    · obtain ⟨hcode, -⟩ := Prod.mk.inj h
      exact absurd (Except.ok.inj hcode) (Failure.exitCode_ne_zero _)
    · cases h

end ModelScale
