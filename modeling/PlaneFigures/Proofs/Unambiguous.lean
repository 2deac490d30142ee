import PlaneFigures.Expr.Log
import PlaneFigures.Proofs.Numerals

/-!
# Texts of programs are unambiguous

Programs with the same text are the same, if no name in them has a parenthesis or a comma. The proof
reads two texts from the left, each with more text behind it that is empty or begins with one of these
three marks. Words, names and numerals have no mark in them, and so end at the same place in both
texts. The word that a text begins with tells the form of the program, and the parts of a program of
that form follow in a fixed order.
-/

namespace PlaneFigures

def Mark (c : Char) : Prop := c = '(' ∨ c = ')' ∨ c = ','

instance (c : Char) : Decidable (Mark c) := inferInstanceAs (Decidable (_ ∨ _ ∨ _))

def Plain (u : List Char) : Prop := ∀ c ∈ u, ¬Mark c

instance (u : List Char) : Decidable (Plain u) := List.decidableBAll (¬Mark ·) u

def Stopped (r : List Char) : Prop := ∀ c ∈ r.head?, Mark c

theorem stopped_nil : Stopped [] := nofun

theorem stopped_cons {c : Char} (hc : Mark c) (r : List Char) : Stopped (c :: r) := by
  intro d hd
  cases hd
  exact hc

theorem Stopped.append {t r : List Char} (ht : Stopped t) (hr : Stopped r) : Stopped (t ++ r) := by
  cases t with
  | nil => exact hr
  | cons c t => exact stopped_cons (ht c rfl) _

theorem stopped_comma (t : List Char) : Stopped (", ".toList ++ t) := stopped_cons (by decide) _

theorem stopped_close (t : List Char) : Stopped (")".toList ++ t) := stopped_cons (by decide) _

theorem Plain.append_inj {u v r s : List Char} (hu : Plain u) (hv : Plain v) (hr : Stopped r)
    (hs : Stopped s) (h : u ++ r = v ++ s) : u = v ∧ r = s := by
  induction u generalizing v with
  | nil =>
    cases v with
    | nil => exact ⟨rfl, h⟩
    | cons d v =>
      subst h
      exact absurd (hr d rfl) (hv d List.mem_cons_self)
  | cons c u ih =>
    cases v with
    | nil =>
      subst h
      exact absurd (hs c rfl) (hu c List.mem_cons_self)
    | cons d v =>
      obtain ⟨rfl, htail⟩ := List.cons.inj h
      have hu' : Plain u := fun a ha => hu a (List.mem_cons_of_mem c ha)
      have hv' : Plain v := fun a ha => hv a (List.mem_cons_of_mem c ha)
      obtain ⟨rfl, hrest⟩ := ih hu' hv' htail
      exact ⟨rfl, hrest⟩

theorem plain_numeral (x : Float) : Plain (numeral x).toList := by
  intro c hc hmark
  have hchar := numeral_chars x c hc
  rcases hmark with rfl | rfl | rfl
  · exact absurd hchar (by decide)
  · exact absurd hchar (by decide)
  · exact absurd hchar (by decide)

section Parts

variable {r s : List Char} (hr : Stopped r) (hs : Stopped s)

include hr hs

theorem numeral_append_inj {x y : Float}
    (h : (numeral x).toList ++ r = (numeral y).toList ++ s) : x = y ∧ r = s := by
  obtain ⟨htext, hrest⟩ := (plain_numeral x).append_inj (plain_numeral y) hr hs h
  exact ⟨numeral_injective (String.toList_inj.1 htext), hrest⟩

theorem Point.text_append_inj {p q : Point Float}
    (h : p.text.toList ++ r = q.text.toList ++ s) : p = q ∧ r = s := by
  obtain ⟨x, y⟩ := p
  obtain ⟨x', y'⟩ := q
  simp only [text, String.toList_append, List.append_assoc] at h
  obtain ⟨rfl, hy⟩ := numeral_append_inj (stopped_comma _) (stopped_comma _) h
  obtain ⟨rfl, hrest⟩ := numeral_append_inj hr hs (List.append_cancel_left hy)
  exact ⟨rfl, hrest⟩

end Parts

theorem Figure.text_append_inj {f g : Figure Float} {r s : List Char} (hkind : f.kind = g.kind)
    (h : f.text.toList ++ r = g.text.toList ++ s) : f = g ∧ r = s := by
  cases f with
  | empty =>
    cases g with
    | empty => exact ⟨rfl, List.append_cancel_left h⟩
    | _ => cases hkind
  | point p =>
    cases g with
    | point q =>
      simp only [text_point, String.toList_append, List.append_assoc] at h
      obtain ⟨rfl, hrest⟩ := Point.text_append_inj (stopped_close _) (stopped_close _)
        (List.append_cancel_left h)
      exact ⟨rfl, List.append_cancel_left hrest⟩
    | _ => cases hkind
  | line m b =>
    cases g with
    | line n c =>
      simp only [text_line, String.toList_append, List.append_assoc] at h
      obtain ⟨rfl, hb⟩ := numeral_append_inj (stopped_comma _) (stopped_comma _)
        (List.append_cancel_left h)
      obtain ⟨rfl, hrest⟩ := numeral_append_inj (stopped_close _) (stopped_close _)
        (List.append_cancel_left hb)
      exact ⟨rfl, List.append_cancel_left hrest⟩
    | _ => cases hkind
  | vertical x =>
    cases g with
    | vertical y =>
      simp only [text_vertical, String.toList_append, List.append_assoc] at h
      obtain ⟨rfl, hrest⟩ := numeral_append_inj (stopped_close _) (stopped_close _)
        (List.append_cancel_left h)
      exact ⟨rfl, List.append_cancel_left hrest⟩
    | _ => cases hkind
  | segment t =>
    cases g with
    | segment u =>
      obtain ⟨p, q⟩ := t
      obtain ⟨p', q'⟩ := u
      simp only [text_segment, String.toList_append, List.append_assoc] at h
      obtain ⟨rfl, hstop⟩ := Point.text_append_inj (stopped_comma _) (stopped_comma _)
        (List.append_cancel_left h)
      obtain ⟨rfl, hrest⟩ := Point.text_append_inj (stopped_close _) (stopped_close _)
        (List.append_cancel_left hstop)
      exact ⟨rfl, List.append_cancel_left hrest⟩
    | _ => cases hkind

theorem Kind.name_injective {k l : Kind} (h : k.name = l.name) : k = l := by
  revert h
  cases k <;> cases l <;> decide

theorem Kind.plain_name (k : Kind) : Plain k.name.toList := by cases k <;> decide

namespace Expr

def names {α : Type} : Expr α → List String
  | literal _ => []
  | intersect left right => left.names ++ right.names
  | letIn name bound body => name :: (bound.names ++ body.names)
  | var name => [name]
  | shift _ _ target => target.names

def heading : Expr Float → String
  | literal value => value.kind.name
  | intersect _ _ => "Intersect"
  | letIn _ _ _ => "Let"
  | var _ => "Var"
  | shift _ _ _ => "Shift"

theorem plain_heading (e : Expr Float) : Plain e.heading.toList := by
  cases e with
  | literal f => exact f.kind.plain_name
  | _ =>
    simp only [heading]
    decide

theorem exists_text_eq (e : Expr Float) :
    ∃ t, Stopped t ∧ e.text.toList = e.heading.toList ++ t := by
  have hopen (t : List Char) : Stopped ('(' :: t) := stopped_cons (by decide) t
  cases e with
  | literal f =>
    cases f with
    | empty => exact ⟨[], stopped_nil, (List.append_nil _).symm⟩
    | _ =>
      simp only [text_literal, Figure.text_point, Figure.text_line, Figure.text_vertical,
        Figure.text_segment, heading, Figure.kind, Kind.name, String.toList_append,
        String.reduceToList, List.append_assoc, List.cons_append, List.nil_append]
      exact ⟨_, hopen _, rfl⟩
  | _ =>
    simp only [text_intersect, text_letIn, text_var, text_shift, heading, String.toList_append,
      String.reduceToList, List.append_assoc, List.cons_append, List.nil_append]
    exact ⟨_, hopen _, rfl⟩

/-- The programs are of one form, and of one kind if they are figures. -/
def OneForm : Expr Float → Expr Float → Prop
  | literal f, literal g => f.kind = g.kind
  | intersect _ _, intersect _ _ => True
  | letIn _ _ _, letIn _ _ _ => True
  | var _, var _ => True
  | shift _ _ _, shift _ _ _ => True
  | _, _ => False

theorem oneForm_of_heading_eq {e₁ e₂ : Expr Float} (h : e₁.heading = e₂.heading) :
    e₁.OneForm e₂ := by
  have hname (k : Kind) :
      k.name ≠ "Intersect" ∧ k.name ≠ "Let" ∧ k.name ≠ "Var" ∧ k.name ≠ "Shift" := by
    cases k <;> decide
  cases e₁ with
  | literal f =>
    obtain ⟨hintersect, hlet, hvar, hshift⟩ := hname f.kind
    cases e₂ with
    | literal g => exact Kind.name_injective h
    | intersect => exact hintersect h
    | letIn => exact hlet h
    | var => exact hvar h
    | shift => exact hshift h
  | intersect =>
    cases e₂ with
    | literal g => exact (hname g.kind).1 h.symm
    | intersect => trivial
    | _ => exact absurd h (by simp only [heading]; decide)
  | letIn =>
    cases e₂ with
    | literal g => exact (hname g.kind).2.1 h.symm
    | letIn => trivial
    | _ => exact absurd h (by simp only [heading]; decide)
  | var =>
    cases e₂ with
    | literal g => exact (hname g.kind).2.2.1 h.symm
    | var => trivial
    | _ => exact absurd h (by simp only [heading]; decide)
  | shift =>
    cases e₂ with
    | literal g => exact (hname g.kind).2.2.2 h.symm
    | shift => trivial
    | _ => exact absurd h (by simp only [heading]; decide)

theorem oneForm_of_text_append_eq {e₁ e₂ : Expr Float} {r s : List Char} (hr : Stopped r)
    (hs : Stopped s) (h : e₁.text.toList ++ r = e₂.text.toList ++ s) : e₁.OneForm e₂ := by
  obtain ⟨t, ht, htext⟩ := e₁.exists_text_eq
  obtain ⟨u, hu, htext'⟩ := e₂.exists_text_eq
  rw [htext, htext', List.append_assoc, List.append_assoc] at h
  have hheading := e₁.plain_heading.append_inj e₂.plain_heading (ht.append hr) (hu.append hs) h
  exact oneForm_of_heading_eq (String.toList_inj.1 hheading.1)

/-- No name of the program has a parenthesis or a comma in it. -/
def PlainNames (e : Expr Float) : Prop := ∀ name ∈ e.names, Plain name.toList

instance (e : Expr Float) : Decidable e.PlainNames :=
  List.decidableBAll (fun name : String => Plain name.toList) e.names

/-- The text of a program is determined by any text that begins with it, followed by a mark or by
nothing. -/
theorem text_append_inj {e₁ e₂ : Expr Float} (h₁ : e₁.PlainNames) (h₂ : e₂.PlainNames)
    {r s : List Char} (hr : Stopped r) (hs : Stopped s)
    (h : e₁.text.toList ++ r = e₂.text.toList ++ s) : e₁ = e₂ ∧ r = s := by
  induction e₁ generalizing e₂ r s with
  | literal f =>
    have hform := oneForm_of_text_append_eq hr hs h
    cases e₂ with
    | literal g =>
      obtain ⟨rfl, hrest⟩ := Figure.text_append_inj hform h
      exact ⟨rfl, hrest⟩
    | _ => exact hform.elim
  | intersect left right ihl ihr =>
    have hform := oneForm_of_text_append_eq hr hs h
    cases e₂ with
    | intersect left' right' =>
      simp only [text_intersect, String.toList_append, List.append_assoc] at h
      obtain ⟨hl₁, hr₁⟩ := List.forall_mem_append.1 h₁
      obtain ⟨hl₂, hr₂⟩ := List.forall_mem_append.1 h₂
      obtain ⟨rfl, hright⟩ := ihl hl₁ hl₂ (stopped_comma _) (stopped_comma _)
        (List.append_cancel_left h)
      obtain ⟨rfl, hrest⟩ := ihr hr₁ hr₂ (stopped_close _) (stopped_close _)
        (List.append_cancel_left hright)
      exact ⟨rfl, List.append_cancel_left hrest⟩
    | _ => exact hform.elim
  | letIn name bound body ihb ihe =>
    have hform := oneForm_of_text_append_eq hr hs h
    cases e₂ with
    | letIn name' bound' body' =>
      simp only [text_letIn, String.toList_append, List.append_assoc] at h
      obtain ⟨hn₁, hparts₁⟩ := List.forall_mem_cons.1 h₁
      obtain ⟨hn₂, hparts₂⟩ := List.forall_mem_cons.1 h₂
      obtain ⟨hb₁, he₁⟩ := List.forall_mem_append.1 hparts₁
      obtain ⟨hb₂, he₂⟩ := List.forall_mem_append.1 hparts₂
      obtain ⟨hname, hbound⟩ := hn₁.append_inj hn₂ (stopped_comma _) (stopped_comma _)
        (List.append_cancel_left h)
      obtain rfl := String.toList_inj.1 hname
      obtain ⟨rfl, hbody⟩ := ihb hb₁ hb₂ (stopped_comma _) (stopped_comma _)
        (List.append_cancel_left hbound)
      obtain ⟨rfl, hrest⟩ := ihe he₁ he₂ (stopped_close _) (stopped_close _)
        (List.append_cancel_left hbody)
      exact ⟨rfl, List.append_cancel_left hrest⟩
    | _ => exact hform.elim
  | var name =>
    have hform := oneForm_of_text_append_eq hr hs h
    cases e₂ with
    | var name' =>
      simp only [text_var, String.toList_append, List.append_assoc] at h
      obtain ⟨hname, hrest⟩ := (h₁ name List.mem_cons_self).append_inj (h₂ name' List.mem_cons_self)
        (stopped_close _) (stopped_close _) (List.append_cancel_left h)
      obtain rfl := String.toList_inj.1 hname
      exact ⟨rfl, List.append_cancel_left hrest⟩
    | _ => exact hform.elim
  | shift dx dy target ih =>
    have hform := oneForm_of_text_append_eq hr hs h
    cases e₂ with
    | shift dx' dy' target' =>
      simp only [text_shift, String.toList_append, List.append_assoc] at h
      obtain ⟨rfl, hdy⟩ := numeral_append_inj (stopped_comma _) (stopped_comma _)
        (List.append_cancel_left h)
      obtain ⟨rfl, htarget⟩ := numeral_append_inj (stopped_comma _) (stopped_comma _)
        (List.append_cancel_left hdy)
      have ht₁ : target.PlainNames := fun name hname => h₁ name hname
      have ht₂ : target'.PlainNames := fun name hname => h₂ name hname
      obtain ⟨rfl, hrest⟩ := ih ht₁ ht₂ (stopped_close _) (stopped_close _)
        (List.append_cancel_left htarget)
      exact ⟨rfl, List.append_cancel_left hrest⟩
    | _ => exact hform.elim

/-- Programs with the same text are the same program, if no name in them has a parenthesis or a comma
in it. -/
theorem eq_of_text_eq {e₁ e₂ : Expr Float} (h₁ : e₁.PlainNames) (h₂ : e₂.PlainNames)
    (h : e₁.text = e₂.text) : e₁ = e₂ :=
  (text_append_inj h₁ h₂ stopped_nil stopped_nil (by rw [h])).1

/-- A program whose only name is empty, with a negative zero, a number that is not a whole one and the
value that is not a number, and the same program with these three computed. -/
theorem eq_of_text_eq_computed :
    let e₁ : Expr Float := letIn "" (shift (-0) 0.1 (literal (.vertical Float.nan))) (var "")
    let e₂ : Expr Float := letIn "" (shift (0 * -1) (1 / 10) (literal (.vertical (0 / 0)))) (var "")
    e₁.PlainNames ∧ e₂.PlainNames ∧ e₁.text = e₂.text ∧ e₁ = e₂ := by
  intro e₁ e₂
  have h₁ : e₁.PlainNames := by decide +kernel
  have h₂ : e₂.PlainNames := by decide +kernel
  have htext : e₁.text = e₂.text := by decide +kernel
  exact ⟨h₁, h₂, htext, eq_of_text_eq h₁ h₂ htext⟩

/-- Names with marks in them can make two programs look alike. -/
example :
    (intersect (var "a), Var(b") (var "c")).text =
      (intersect (var "a") (var "b), Var(c")).text := by
  decide +kernel

end Expr

end PlaneFigures
