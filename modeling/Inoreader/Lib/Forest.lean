import Mathlib.Data.List.Basic

/-!
# Forests with text leaves

The children of an element of a document: texts over letters `α` and elements with labels `ε`. `normalize` joins
adjacent texts and drops the empty ones, `unwrap p` puts the children of the elements with `p` in their place. How the
text is cut into leaves and which of it is wrapped does not matter for `spread`: it wraps off, relabels, and cuts every
text into its letters.
-/

namespace Lib

inductive Forest (α ε : Type)
  | nil
  | text (data : List α) (rest : Forest α ε)
  | element (label : ε) (children rest : Forest α ε)
deriving DecidableEq, Repr

namespace Forest
variable {α ε ι : Type}

def append : Forest α ε → Forest α ε → Forest α ε
  | nil, b => b
  | text d r, b => text d (r.append b)
  | element e c r, b => element e c (r.append b)

/-- The text of all leaves. -/
def content : Forest α ε → List α
  | nil => []
  | text d r => d ++ r.content
  | element _ c r => c.content ++ r.content

/-- The labels in the order of the document. -/
def elements : Forest α ε → List ε
  | nil => []
  | text _ r => r.elements
  | element e c r => e :: (c.elements ++ r.elements)

def relabel (f : ε → ε) : Forest α ε → Forest α ε
  | nil => nil
  | text d r => text d (r.relabel f)
  | element e c r => element (f e) (c.relabel f) (r.relabel f)

def unwrap (p : ε → Bool) : Forest α ε → Forest α ε
  | nil => nil
  | text d r => text d (r.unwrap p)
  | element e c r => if p e then (c.unwrap p).append (r.unwrap p) else element e (c.unwrap p) (r.unwrap p)

/-- A text before a forest whose texts are joined. -/
def consText (d : List α) (t : Forest α ε) : Forest α ε :=
  if d.isEmpty then t
  else
    match t with
    | text d' r => text (d ++ d') r
    | t => text d t

def normalize : Forest α ε → Forest α ε
  | nil => nil
  | text d r => consText d r.normalize
  | element e c r => element e c.normalize r.normalize

/-- A text cut into its letters. -/
def letters (d : List α) (rest : Forest α ε) : Forest α ε := d.foldr (fun u r => text [u] r) rest

def spread (p : ε → Bool) (f : ε → ε) : Forest α ε → Forest α ε
  | nil => nil
  | text d r => letters d (r.spread p f)
  | element e c r => if p e then (c.spread p f).append (r.spread p f) else element (f e) (c.spread p f) (r.spread p f)

variable {p q : ε → Bool} {f g : ε → ε} {a b r t : Forest α ε} {d d' : List α}

@[simp] theorem append_nil (a : Forest α ε) : a.append nil = a := by
  induction a with
  | nil => rfl
  | text d r ih => rw [append, ih]
  | element e c r _ ih => rw [append, ih]

theorem append_assoc (a b c : Forest α ε) : (a.append b).append c = a.append (b.append c) := by
  induction a with
  | nil => rfl
  | text d r ih => simp only [append, ih]
  | element e c r _ ih => simp only [append, ih]

@[simp] theorem content_append (a b : Forest α ε) : (a.append b).content = a.content ++ b.content := by
  induction a with
  | nil => rfl
  | text d r ih => simp only [append, content, ih, List.append_assoc]
  | element e c r _ ih => simp only [append, content, ih, List.append_assoc]

@[simp] theorem elements_append (a b : Forest α ε) : (a.append b).elements = a.elements ++ b.elements := by
  induction a with
  | nil => rfl
  | text d r ih => simp only [append, elements, ih]
  | element e c r _ ih => simp only [append, elements, ih, List.cons_append, List.append_assoc]

theorem unwrap_append (a b : Forest α ε) : (a.append b).unwrap p = (a.unwrap p).append (b.unwrap p) := by
  induction a with
  | nil => rfl
  | text d r ih => simp only [append, unwrap, ih]
  | element e c r _ ih =>
    simp only [append, unwrap, ih]
    split
    · rw [append_assoc]
    · rfl

theorem relabel_append (a b : Forest α ε) : (a.append b).relabel f = (a.relabel f).append (b.relabel f) := by
  induction a with
  | nil => rfl
  | text d r ih => simp only [append, relabel, ih]
  | element e c r _ ih => simp only [append, relabel, ih]

/-! ## Unwrapping and relabelling -/

/-- Two unwrappings with a relabelling between them are one. -/
theorem unwrap_relabel_unwrap (hq : ∀ e, q (f e) = q e) (t : Forest α ε) :
    ((t.unwrap p).relabel f).unwrap q = (t.unwrap fun e => p e || q e).relabel f := by
  induction t with
  | nil => rfl
  | text d r ih => simp only [unwrap, relabel, ih]
  | element e c r ihc ihr =>
    cases hp : p e with
    | true => simp only [unwrap, hp, Bool.true_or, if_true, relabel_append, unwrap_append, ihc, ihr]
    | false =>
      cases hqe : q e with
      | true => simp [unwrap, hp, hqe, hq, relabel, relabel_append, ihc, ihr]
      | false => simp [unwrap, hp, hqe, hq, relabel, ihc, ihr]

theorem unwrap_of_forall (h : ∀ e ∈ t.elements, p e = false) : t.unwrap p = t := by
  induction t with
  | nil => rfl
  | text d r ih => rw [unwrap, ih h]
  | element e c r ihc ihr =>
    simp only [elements, List.forall_mem_cons, List.forall_mem_append] at h
    rw [unwrap, if_neg (by simp [h.1]), ihc h.2.1, ihr h.2.2]

theorem relabel_congr (h : ∀ e ∈ t.elements, f e = g e) : t.relabel f = t.relabel g := by
  induction t with
  | nil => rfl
  | text d r ih => rw [relabel, relabel, ih h]
  | element e c r ihc ihr =>
    simp only [elements, List.forall_mem_cons, List.forall_mem_append] at h
    rw [relabel, relabel, h.1, ihc h.2.1, ihr h.2.2]

theorem relabel_id (t : Forest α ε) : t.relabel (fun e => e) = t := by
  induction t with
  | nil => rfl
  | text d r ih => rw [relabel, ih]
  | element e c r ihc ihr => rw [relabel, ihc, ihr]

theorem elements_unwrap (t : Forest α ε) : (t.unwrap p).elements = t.elements.filter (!p ·) := by
  induction t with
  | nil => rfl
  | text d r ih => exact ih
  | element e c r ihc ihr =>
    cases hp : p e with
    | true => simp [unwrap, elements, hp, ihc, ihr]
    | false => simp [unwrap, elements, hp, ihc, ihr]

/-! ## Joining texts -/

theorem consText_nil (t : Forest α ε) : consText [] t = t := rfl

theorem consText_append (d d' : List α) (t : Forest α ε) : consText d (consText d' t) = consText (d ++ d') t := by
  cases d with
  | nil => rfl
  | cons u d =>
    cases d' with
    | nil => rw [consText_nil, List.append_nil]
    | cons u' d' =>
      cases t with
      | nil => rfl
      | text d'' r => simp [consText]
      | element e c r => rfl

/-- `append` of two forests whose texts are joined. -/
def glue : Forest α ε → Forest α ε → Forest α ε
  | nil, b => b
  | text d r, b => consText d (r.glue b)
  | element e c r, b => element e c (r.glue b)

theorem glue_consText (d : List α) (t b : Forest α ε) : (consText d t).glue b = consText d (t.glue b) := by
  cases d with
  | nil => rfl
  | cons u d =>
    cases t with
    | nil => rfl
    | text d' r => exact (consText_append (u :: d) d' (r.glue b)).symm
    | element e c r => rfl

theorem normalize_append (a b : Forest α ε) : (a.append b).normalize = a.normalize.glue b.normalize := by
  induction a with
  | nil => rfl
  | text d r ih => rw [append, normalize, normalize, ih, glue_consText]
  | element e c r _ ih => rw [append, normalize, normalize, ih, glue]

theorem normalize_letters (d : List α) (t : Forest α ε) : (letters d t).normalize = (text d t).normalize := by
  induction d with
  | nil => rfl
  | cons u d ih => exact (congrArg (consText [u]) ih).trans (consText_append [u] d t.normalize)

@[simp] theorem content_consText (d : List α) (t : Forest α ε) : (consText d t).content = d ++ t.content := by
  cases d with
  | nil => rfl
  | cons u d =>
    cases t with
    | nil => rfl
    | text d' r => simp [consText, content]
    | element e c r => rfl

@[simp] theorem elements_consText (d : List α) (t : Forest α ε) : (consText d t).elements = t.elements := by
  cases d with
  | nil => rfl
  | cons u d => cases t <;> rfl

@[simp] theorem elements_normalize (t : Forest α ε) : t.normalize.elements = t.elements := by
  induction t with
  | nil => rfl
  | text d r ih => rw [normalize, elements_consText, ih, elements]
  | element e c r ihc ihr => rw [normalize, elements, ihc, ihr, elements]

/-! ## Spreading -/

theorem letters_append (d d' : List α) (t : Forest α ε) : letters (d ++ d') t = letters d (letters d' t) :=
  List.foldr_append

@[simp] theorem content_letters (d : List α) (t : Forest α ε) : (letters d t).content = d ++ t.content := by
  induction d with
  | nil => rfl
  | cons u d ih => exact congrArg (u :: ·) ih

@[simp] theorem elements_letters (d : List α) (t : Forest α ε) : (letters d t).elements = t.elements := by
  induction d with
  | nil => rfl
  | cons u d ih => exact ih

theorem spread_append (a b : Forest α ε) : (a.append b).spread p f = (a.spread p f).append (b.spread p f) := by
  have hletters : ∀ (d : List α) (t : Forest α ε), (letters d t).append (b.spread p f) =
      letters d (t.append (b.spread p f)) := by
    intro d t
    induction d with
    | nil => rfl
    | cons u d ih => exact congrArg (text [u]) ih
  induction a with
  | nil => rfl
  | text d r ih => rw [append, spread, spread, ih, hletters]
  | element e c r _ ih =>
    simp only [append, spread, ih]
    split
    · rw [append_assoc]
    · rfl

theorem spread_consText (d : List α) (t : Forest α ε) : (consText d t).spread p f = letters d (t.spread p f) := by
  cases d with
  | nil => rfl
  | cons u d =>
    cases t with
    | nil => rfl
    | text d' r => exact letters_append (u :: d) d' (r.spread p f)
    | element e c r => rfl

theorem spread_normalize (t : Forest α ε) : t.normalize.spread p f = t.spread p f := by
  induction t with
  | nil => rfl
  | text d r ih => rw [normalize, spread_consText, ih, spread]
  | element e c r ihc ihr => rw [normalize, spread, spread, ihc, ihr]

/-- A spread forest normalizes to the forest with the same text and elements. -/
theorem normalize_spread (t : Forest α ε) : (t.spread p f).normalize = ((t.unwrap p).relabel f).normalize := by
  induction t with
  | nil => rfl
  | text d r ih => rw [spread, normalize_letters, normalize, ih, unwrap, relabel, normalize]
  | element e c r ihc ihr =>
    unfold spread unwrap
    split
    · rw [normalize_append, ihc, ihr, relabel_append, normalize_append]
    · rw [relabel, normalize, normalize, ihc, ihr]

@[simp] theorem content_spread (t : Forest α ε) : (t.spread p f).content = t.content := by
  induction t with
  | nil => rfl
  | text d r ih => rw [spread, content_letters, ih, content]
  | element e c r ihc ihr =>
    unfold spread
    split
    · rw [content_append, ihc, ihr, content]
    · rw [content, ihc, ihr, content]

theorem elements_spread (t : Forest α ε) : (t.spread p f).elements = (t.elements.filter (!p ·)).map f := by
  induction t with
  | nil => rfl
  | text d r ih => rw [spread, elements_letters, ih, elements]
  | element e c r ihc ihr =>
    cases hp : p e with
    | true => simp [spread, elements, hp, ihc, ihr]
    | false => simp [spread, elements, hp, ihc, ihr]

@[simp] theorem content_normalize (t : Forest α ε) : t.normalize.content = t.content := by
  induction t with
  | nil => rfl
  | text d r ih => rw [normalize, content_consText, ih, content]
  | element e c r ihc ihr => rw [normalize, content, ihc, ihr, content]

/-! ## The letters with the marks around them -/

/-- Every letter with the marks of the elements that it lies in, the outermost ones first. -/
def letterMarks (m : ε → List ι) (above : List ι) : Forest α ε → List (α × List ι)
  | nil => []
  | text d r => d.map (·, above) ++ r.letterMarks m above
  | element e c r => c.letterMarks m (above ++ m e) ++ r.letterMarks m above

/-- The text of the elements with `p`, in the order of the document. -/
def textIn (p : ε → Bool) : Forest α ε → List α
  | nil => []
  | text _ r => r.textIn p
  | element e c r => (if p e then c.content else c.textIn p) ++ r.textIn p

variable {m : ε → List ι} {above : List ι}

theorem letterMarks_fst (m : ε → List ι) (above : List ι) (t : Forest α ε) : (t.letterMarks m above).map Prod.fst = t.content := by
  induction t generalizing above with
  | nil => rfl
  | text d r ih => simp [letterMarks, content, ih, Function.comp_def]
  | element e c r ihc ihr => simp [letterMarks, content, ihc, ihr]

theorem mem_above {t : Forest α ε} {x : α × List ι} (h : x ∈ t.letterMarks m above) {i : ι} (hi : i ∈ above) :
    i ∈ x.2 := by
  induction t generalizing above with
  | nil => cases h
  | text d r ih =>
    rcases List.mem_append.1 h with hd | hr
    · obtain ⟨u, -, rfl⟩ := List.mem_map.1 hd
      exact hi
    · exact ih hr hi
  | element e c r ihc ihr =>
    rcases List.mem_append.1 h with hc | hr
    · exact ihc hc (List.mem_append_left _ hi)
    · exact ihr hr hi

/-- The text of the elements with a mark is the letters with the mark. -/
theorem textIn_eq [DecidableEq ι] {i : ι} (hi : i ∉ above) (t : Forest α ε) :
    t.textIn (fun e => i ∈ m e) = ((t.letterMarks m above).filter (i ∈ ·.2)).map Prod.fst := by
  induction t generalizing above with
  | nil => rfl
  | text d r ih =>
    have hd : (d.map (·, above)).filter (fun x => decide (i ∈ x.2)) = [] := by
      simp [List.filter_eq_nil_iff, hi]
    rw [textIn, letterMarks, List.filter_append, hd, List.nil_append, ih hi]
  | element e c r ihc ihr =>
    rw [textIn, letterMarks, List.filter_append, List.map_append, ← ihr hi]
    congr 1
    by_cases he : i ∈ m e
    · rw [if_pos (decide_eq_true he), ← letterMarks_fst m (above ++ m e) c]
      congr 1
      symm
      exact List.filter_eq_self.2 fun x hx => decide_eq_true (mem_above hx (List.mem_append_right _ he))
    · rw [if_neg (by simpa using he)]
      exact ihc fun h => (List.mem_append.1 h).elim hi he

end Forest
end Lib
