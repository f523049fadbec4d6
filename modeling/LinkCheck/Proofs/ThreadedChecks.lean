import LinkCheck.Proofs.AnsweredInquiries
import LinkCheck.Proofs.ClasspathViews
import LinkCheck.Proofs.Runs

/-!
# A check finds what its sources tell

While a check runs, each question is put to a source as the last question left it, and what sources
remember changes from one question to the next. As long as all questions are answered as a classpath would
answer them, the check finds what is found against the classpath. Sources that remember nothing but what is
right answer so.

## Main definitions

- `ClassSource.Linking` — what is kept between and during the checks of single classes
- `ClassSource.Telling` — the classpaths whose answers are given meanwhile

## Main results

- `Inquiry.run_through` — an inquiry with the answers of a source
- `ClassSource.Linking.run_verifyAgainst` — a check finds what is found against the classpaths
- `ClassSource.Grounded.run_verifyAgainst` — a check keeps what is remembered right, and finds what is found
  against sources that remember nothing
-/

namespace LinkCheck

variable {between during kept : Shelf → Prop} {plugin effective source : ClassSource}
  {classes classpath : Classpath} {shelf : Shelf}

/-- An answer counts only for a name that can be found. -/
theorem Listed.ofAnswer_congr {names : List ClassName} {name : ClassName} {answer other : FindResult}
    (h : name ∈ names → answer = other) : ofAnswer names name answer = ofAnswer names name other := by
  unfold ofAnswer
  split
  · next hlisted => rw [h hlisted]
  · rfl

namespace Inquiry

/-- What each question keeps is kept by an inquiry. -/
theorem kept_through {α : Type} {names : List ClassName}
    (h : ∀ shelf, kept shelf → ∀ name, kept ((source.find name).run shelf).2)
    (inquiry : Inquiry names α) (hkept : kept shelf) : kept ((inquiry.through source).run shelf).2 := by
  induction inquiry generalizing shelf with
  | done result => exact hkept
  | ask name next ih =>
    rw [through, Shelved.run_bind]
    exact ih _ (h shelf hkept name)

/-- With the answers of a source, an inquiry gives what it gives with those of a classpath. The induction is
on the questions that are left, and each of them starts from a shelf on which something may be remembered
already. -/
theorem run_through {α : Type}
    (h : ∀ shelf, kept shelf → ∀ name, kept ((source.find name).run shelf).2)
    (hanswers : ∀ shelf, kept shelf → ∀ name ∈ classpath.names,
      ((source.find name).run shelf).1 = classpath.lookup name)
    (inquiry : Inquiry classpath.names α) (hkept : kept shelf) :
    ((inquiry.through source).run shelf).1 = inquiry.answeredBy classpath := by
  induction inquiry generalizing shelf with
  | done result => rfl
  | ask name next ih =>
    rw [through, Shelved.run_bind, answeredBy,
      ← Listed.ofAnswer_congr fun hname => hanswers shelf hkept name hname]
    exact ih _ (h shelf hkept name)

end Inquiry

namespace ClassSource

/-- What is kept between and during the checks of single classes. Before a class is checked, the names of the
source are asked for against which it is linked. -/
structure Linking (between during : Shelf → Prop) (plugin effective : ClassSource) : Prop where
  plugin : ∀ shelf, between shelf → ∀ name, between ((plugin.find name).run shelf).2
  names : ∀ shelf, between shelf → during (effective.names.run shelf).2
  find : ∀ shelf, during shelf → ∀ name, during ((effective.find name).run shelf).2
  leave : ∀ shelf, during shelf → between shelf

/-- What is told meanwhile: the plugin and the source against which it is linked answer like classpaths. -/
structure Telling (between during : Shelf → Prop) (plugin effective : ClassSource)
    (classes classpath : Classpath) : Prop where
  plugin : ∀ shelf, between shelf → ∀ name ∈ classes.names,
    ((plugin.find name).run shelf).1 = classes.lookup name
  names : ∀ shelf, between shelf → (effective.names.run shelf).1 = classpath.names
  find : ∀ shelf, during shelf → ∀ name ∈ classpath.names,
    ((effective.find name).run shelf).1 = classpath.lookup name

namespace Linking

theorem kept_classFindings (h : Linking between during plugin effective) (options : Options)
    (name : ClassName) (hshelf : between shelf) :
    between ((plugin.classFindings effective options name).run shelf).2 := by
  have hasked := h.plugin shelf hshelf name
  rw [classFindings, Shelved.run_bind]
  rcases ((plugin.find name).run shelf).1 with error | _ | definition
  · exact hasked
  · exact hasked
  · exact h.leave _ (Inquiry.kept_through h.find _ (h.names _ hasked))

theorem kept_mapM_classFindings (h : Linking between during plugin effective) (options : Options)
    (names : List ClassName) (hshelf : between shelf) :
    between ((names.mapM (plugin.classFindings effective options)).run shelf).2 := by
  induction names generalizing shelf with
  | nil => exact hshelf
  | cons name names ih =>
    rw [List.mapM_cons, Shelved.run_bind, Shelved.run_bind]
    exact ih (h.kept_classFindings options name hshelf)

/-- A check keeps what is kept between the checks of single classes. -/
theorem kept_verifyAgainst (h : Linking between during plugin effective) (options : Options)
    (hshelf : between (plugin.names.run shelf).2) :
    between ((plugin.verifyAgainst effective options).run shelf).2 := by
  rw [verifyAgainst, Shelved.run_bind, Shelved.run_bind]
  exact h.kept_mapM_classFindings options _ hshelf

/-- The check of one class. -/
theorem run_classFindings (h : Linking between during plugin effective)
    (htold : Telling between during plugin effective classes classpath) (options : Options)
    {name : ClassName} (hname : name ∈ classes.names) (hshelf : between shelf) :
    ((plugin.classFindings effective options name).run shelf).1 =
      LinkContext.classFindings ⟨classpath, options⟩ classes name := by
  have hasked := h.plugin shelf hshelf name
  rw [classFindings, Shelved.run_bind, LinkContext.classFindings, Classpath.find, if_pos hname,
    ← htold.plugin shelf hshelf name hname]
  rcases ((plugin.find name).run shelf).1 with error | _ | definition
  · rfl
  · rfl
  · dsimp only
    rw [Shelved.run_bind, htold.names _ hasked, ← Inquiry.answeredBy_definitionFindings]
    exact Inquiry.run_through h.find htold.find _ (h.names _ hasked)

/-- The checks of some classes, one after the other. -/
theorem run_mapM_classFindings (h : Linking between during plugin effective)
    (htold : Telling between during plugin effective classes classpath) (options : Options)
    {names : List ClassName} (hnames : ∀ name ∈ names, name ∈ classes.names)
    (hshelf : between shelf) :
    ((names.mapM (plugin.classFindings effective options)).run shelf).1 =
      names.map (LinkContext.classFindings ⟨classpath, options⟩ classes) := by
  induction names generalizing shelf with
  | nil => rfl
  | cons name names ih =>
    obtain ⟨hname, hothers⟩ := List.forall_mem_cons.1 hnames
    have hrest := ih hothers (h.kept_classFindings options name hshelf)
    rw [List.mapM_cons, Shelved.run_bind, Shelved.run_bind, List.map_cons,
      ← h.run_classFindings htold options hname hshelf, ← hrest]
    rfl

/-- A check finds what is found against the classpaths whose answers are given. -/
theorem run_verifyAgainst (h : Linking between during plugin effective)
    (htold : Telling between during plugin effective classes classpath) (options : Options)
    (hnames : (plugin.names.run shelf).1 = classes.names)
    (hshelf : between (plugin.names.run shelf).2) :
    ((plugin.verifyAgainst effective options).run shelf).1 = verify classes classpath options := by
  have hmem : ∀ name ∈ sorted classes.names, name ∈ classes.names :=
    fun name hname => (mem_sorted _ name).1 hname
  rw [verifyAgainst, Shelved.run_bind, Shelved.run_bind, hnames, verify, List.flatMap_def,
    ← h.run_mapM_classFindings htold options hmem hshelf]
  rfl

end Linking

section Grounded

variable {inventory : Inventory} {now : Shelf}

/-- A source that has been used before gives the answers that it always gives. -/
theorem Grounded.find_of_keeps (h : source.Grounded inventory shelf.files)
    (hnow : shelf.Keeps inventory now) (name : ClassName) :
    source.Answers shelf.files name ((source.find name).run now).1 ∧
      shelf.Keeps inventory ((source.find name).run now).2 := by
  rw [← hnow.files] at h
  obtain ⟨hanswers, hkeeps⟩ := h.find hnow.truthful name
  rw [hnow.files] at hanswers
  exact ⟨hanswers, hnow.trans hkeeps⟩

theorem Grounded.names_of_keeps (h : source.Grounded inventory shelf.files)
    (hnow : shelf.Keeps inventory now) :
    (source.names.run now).1 = source.listed shelf.files ∧
      shelf.Keeps inventory (source.names.run now).2 := by
  rw [← hnow.files] at h ⊢
  obtain ⟨hlisted, hkeeps⟩ := h.names hnow.truthful
  exact ⟨hlisted, hnow.trans hkeeps⟩

/-- A check keeps what is remembered right. Where names that are listed are answered for, it finds what is
found against sources that remember nothing. -/
theorem Grounded.run_verifyAgainst (hplugin : plugin.Grounded inventory shelf.files)
    (heffective : effective.Grounded inventory shelf.files) (htruthful : shelf.Truthful inventory)
    (options : Options) :
    (plugin.Definite shelf.files → effective.Definite shelf.files →
        ((plugin.verifyAgainst effective options).run shelf).1 =
          verify (plugin.view shelf.files) (effective.view shelf.files) options) ∧
      shelf.Keeps inventory ((plugin.verifyAgainst effective options).run shelf).2 := by
  have hlinking : Linking (shelf.Keeps inventory) (shelf.Keeps inventory) plugin effective :=
    { plugin := fun _ hnow name => (hplugin.find_of_keeps hnow name).2
      names := fun _ hnow => (heffective.names_of_keeps hnow).2
      find := fun _ hnow name => (heffective.find_of_keeps hnow name).2
      leave := fun _ hnow => hnow }
  obtain ⟨hlisted, hkeeps⟩ := hplugin.names_of_keeps (.refl htruthful)
  refine ⟨fun hdefinite heffectiveDefinite => ?_, hlinking.kept_verifyAgainst options hkeeps⟩
  refine hlinking.run_verifyAgainst ?_ options hlisted hkeeps
  exact
    { plugin := fun _ hnow name hname =>
        (hplugin.find_of_keeps hnow name).1 hname (hdefinite.found name hname)
      names := fun _ hnow => (heffective.names_of_keeps hnow).1
      find := fun _ hnow name hname =>
        (heffective.find_of_keeps hnow name).1 hname (heffectiveDefinite.found name hname) }

end Grounded

end ClassSource

end LinkCheck
