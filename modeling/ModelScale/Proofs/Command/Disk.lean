import ModelScale.Command.Disk
import ModelScale.Proofs.Document
import ModelScale.Proofs.Outcome

/-
# Files on a disk

Where a path leads depends on which routes hold files and which directories, not on what is in the
files.  So writing into a file that is there moves no path, and changes what the route of that file
holds and no other.  A path is opened with a home directory put in, and a word of the command line
has one put in before it is opened; both are taken together here, so that from now on a path or a
word has one route, or none.  Main statements:

* `Disk.SameTree.locate_eq`: no path is moved;
* `Disk.document?_eq_some`, `Disk.save?_eq_some`: what is opened and what is saved, by routes;
* `Disk.node?_of_save_of_ne`, `Disk.document?_of_save`, `Disk.document?_of_save_of_ne`: what is
  there after a document was saved.
-/

namespace ModelScale

open Text

namespace Disk

/-! ## 1. Reading and writing -/

theorem read_eq_ok {d : Disk} {p : Path} {content : Bytes} :
    d.read p = .ok content ↔
      ∃ route, d.locate p = .ok route ∧ d.node? route = some (.file content) := by
  unfold read
  rw [bind_eq_ok]
  constructor
  · rintro ⟨route, hp, h⟩
    split at h
    · rename_i c hn
      obtain rfl := Except.ok.inj h
      exact ⟨route, hp, hn⟩
    · cases h
    · cases h
  · rintro ⟨route, hp, hn⟩
    refine ⟨route, hp, ?_⟩
    rw [hn]

theorem write_eq_ok {d d' : Disk} {p : Path} {content : Bytes} :
    d.write p content = .ok d' ↔
      ∃ route, d.locate p = .ok route ∧ d.node? route ≠ some .directory ∧
        d' = d.put route (.file content) := by
  unfold write
  rw [bind_eq_ok]
  constructor
  · rintro ⟨route, hp, h⟩
    split at h
    · cases h
    · rename_i hn
      exact ⟨route, hp, hn, (Except.ok.inj h).symm⟩
  · rintro ⟨route, hp, hn, rfl⟩
    refine ⟨route, hp, ?_⟩
    split
    · rename_i h
      exact absurd h hn
    · rfl

/-- What is no directory is not on the way to the working directory. -/
theorem not_prefix_of_node?_ne {d : Disk} {route : Route} (h : d.node? route ≠ some .directory) :
    ¬ route <+: d.workingDirectory :=
  fun hp => h (if_pos hp)

/-! ## 2. Where paths and words lead -/

/-- Where a path leads when it is opened. -/
def target? (d : Disk) (path : Path) : Option Route :=
  (d.expand? path).bind fun p => (d.locate p).toOption

/-- The document that is found when a path is opened. -/
def document? (d : Disk) (path : Path) : Option Document :=
  (d.expand? path).bind fun p => (d.read p).toOption.bind Document.ofBytes?

/-- The disk with other contents in the file that is found when a path is opened. -/
def save? (d : Disk) (path : Path) (content : Bytes) : Option Disk :=
  (d.expand? path).bind fun p => (d.write p content).toOption

/-- The path that a word of the command line names. -/
def argument? (d : Disk) (name : Text) : Option Path :=
  d.expand? (.ofText name)

/-- The file that a word of the command line names. -/
def fileOf? (d : Disk) (name : Text) : Option Route :=
  (d.argument? name).bind d.target?

/-- The document that a word of the command line names. -/
def documentOf? (d : Disk) (name : Text) : Option Document :=
  (d.argument? name).bind d.document?

theorem target?_eq_some {d : Disk} {path : Path} {route : Route} :
    d.target? path = some route ↔ ∃ p, d.expand? path = some p ∧ d.locate p = .ok route := by
  simp only [target?, Option.bind_eq_some_iff, toOption_eq_some]

theorem document?_eq_some {d : Disk} {path : Path} {document : Document} :
    d.document? path = some document ↔ ∃ route content, d.target? path = some route ∧
      d.node? route = some (.file content) ∧ Document.ofBytes? content = some document := by
  simp only [document?, target?_eq_some, Option.bind_eq_some_iff, toOption_eq_some, read_eq_ok]
  constructor
  · rintro ⟨p, hp, content, ⟨route, hroute, hn⟩, hd⟩
    exact ⟨route, content, ⟨p, hp, hroute⟩, hn, hd⟩
  · rintro ⟨route, content, ⟨p, hp, hroute⟩, hn, hd⟩
    exact ⟨p, hp, content, ⟨route, hroute, hn⟩, hd⟩

theorem save?_eq_some {d d' : Disk} {path : Path} {content : Bytes} :
    d.save? path content = some d' ↔ ∃ route, d.target? path = some route ∧
      d.node? route ≠ some .directory ∧ d' = d.put route (.file content) := by
  simp only [save?, target?_eq_some, Option.bind_eq_some_iff, toOption_eq_some, write_eq_ok]
  constructor
  · rintro ⟨p, hp, route, hroute, hn, rfl⟩
    exact ⟨route, ⟨p, hp, hroute⟩, hn, rfl⟩
  · rintro ⟨route, ⟨p, hp, hroute⟩, hn, rfl⟩
    exact ⟨p, hp, route, hroute, hn, rfl⟩

theorem sound_of_document? {d : Disk} {path : Path} {document : Document}
    (h : d.document? path = some document) : document.Sound := by
  obtain ⟨_, content, -, -, hread⟩ := document?_eq_some.mp h
  exact Document.sound_of_ofBytes? hread

/-! ## 3. Disks with the same tree -/

/-- The second disk has a file or a directory just where the first one has, and paths start in the
same places. -/
structure SameTree (d d' : Disk) : Prop where
  workingDirectory_eq : d'.workingDirectory = d.workingDirectory
  homes_eq : d'.homes = d.homes
  node?_eq : ∀ route, d'.node? route = d.node? route ∨
    ∃ c c', d.node? route = some (.file c) ∧ d'.node? route = some (.file c')

theorem SameTree.refl (d : Disk) : SameTree d d :=
  ⟨rfl, rfl, fun _ => Or.inl rfl⟩

theorem SameTree.trans {d e f : Disk} (h : SameTree d e) (h' : SameTree e f) : SameTree d f := by
  refine ⟨h'.workingDirectory_eq.trans h.workingDirectory_eq, h'.homes_eq.trans h.homes_eq, ?_⟩
  intro route
  rcases h.node?_eq route with he | ⟨c, c', hd, he⟩
  · rcases h'.node?_eq route with hf | ⟨c, c', hc, hf⟩
    · exact Or.inl (hf.trans he)
    · exact Or.inr ⟨c, c', he ▸ hc, hf⟩
  · rcases h'.node?_eq route with hf | ⟨-, c'', -, hf⟩
    · exact Or.inr ⟨c, c', hd, hf.trans he⟩
    · exact Or.inr ⟨c, c'', hd, hf⟩

/-- The steps of a path lead to the same place. -/
theorem SameTree.follow_eq {d d' : Disk} (h : SameTree d d') (route : Route) (steps : List Text) :
    d'.follow route steps = d.follow route steps := by
  induction steps generalizing route with
  | nil => rw [follow, follow]
  | cons step steps ih =>
    rw [follow, follow]
    rcases h.node?_eq route with he | ⟨c, c', hd, hd'⟩
    · rw [he]
      simp only [ih]
    · rw [hd, hd']

/-- **No path is moved.** -/
theorem SameTree.locate_eq {d d' : Disk} (h : SameTree d d') (p : Path) :
    d'.locate p = d.locate p := by
  have hstart : ∀ anchor, d'.start anchor = d.start anchor := by
    intro anchor
    cases anchor with
    | here => exact h.workingDirectory_eq
    | root doubled => rfl
  simp only [locate, hstart, h.follow_eq]

theorem SameTree.target?_eq {d d' : Disk} (h : SameTree d d') (p : Path) :
    d'.target? p = d.target? p := by
  simp only [target?, expand?, h.homes_eq, h.locate_eq]

theorem SameTree.argument?_eq {d d' : Disk} (h : SameTree d d') (name : Text) :
    d'.argument? name = d.argument? name := by
  simp only [argument?, expand?, h.homes_eq]

/-- What leads to a file does so still. -/
theorem SameTree.isFile_eq {d d' : Disk} (h : SameTree d d') (p : Path) :
    d'.isFile p = d.isFile p := by
  unfold isFile read
  rw [h.locate_eq]
  cases d.locate p with
  | error e => rfl
  | ok route =>
    simp only [bind, Except.bind]
    rcases h.node?_eq route with he | ⟨c, c', hd, hd'⟩
    · rw [he]
    · rw [hd, hd']

/-! ## 4. Saving into a file that is there -/

section Saved

variable {d d' : Disk} {p : Path} {old : Document} {content : Bytes}

/-- **Every other route** holds what it held. -/
theorem node?_of_save_of_ne (hw : d.save? p content = some d') {route : Route}
    (hne : d.target? p ≠ some route) : d'.node? route = d.node? route := by
  obtain ⟨r, hp, hn, rfl⟩ := save?_eq_some.mp hw
  have hr : route ≠ r := by
    rintro rfl
    exact hne hp
  rw [node?_put (not_prefix_of_node?_ne hn), if_neg hr]

theorem sameTree_of_save (h : d.document? p = some old) (hw : d.save? p content = some d') :
    SameTree d d' := by
  obtain ⟨route, bytes, hp, hn, -⟩ := document?_eq_some.mp h
  obtain ⟨route', hp', hdir, rfl⟩ := save?_eq_some.mp hw
  obtain rfl := Option.some.inj (hp.symm.trans hp')
  refine ⟨rfl, rfl, fun r => ?_⟩
  rw [node?_put (not_prefix_of_node?_ne hdir)]
  by_cases hr : r = route
  · subst hr
    exact Or.inr ⟨bytes, content, hn, if_pos rfl⟩
  · exact Or.inl (if_neg hr)

/-- **The document that was saved** can be opened. -/
theorem document?_of_save (h : d.document? p = some old) (hw : d.save? p content = some d')
    {new : Document} (hn : Document.ofBytes? content = some new) : d'.document? p = some new := by
  have ht := sameTree_of_save h hw
  obtain ⟨route, hp, hdir, rfl⟩ := save?_eq_some.mp hw
  refine document?_eq_some.mpr ⟨route, content, (ht.target?_eq p).trans hp, ?_, hn⟩
  rw [node?_put (not_prefix_of_node?_ne hdir), if_pos rfl]

/-- **Every other document** is what it was. -/
theorem document?_of_save_of_ne (h : d.document? p = some old) (hw : d.save? p content = some d')
    {q : Path} (hne : d.target? q ≠ d.target? p) : d'.document? q = d.document? q := by
  have hq := (sameTree_of_save h hw).target?_eq q
  refine Option.ext fun document => ?_
  rw [document?_eq_some, document?_eq_some, hq]
  refine exists_congr fun route => exists_congr fun bytes => and_congr_right fun hroute => ?_
  rw [node?_of_save_of_ne hw (fun hp => hne (hroute.trans hp.symm))]

end Saved

end Disk

end ModelScale
