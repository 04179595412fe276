/-
Data that are made of texts.

Main definitions:

* `Groundwork.Datum.Texts` — the data of texts, lists and records, all of whose texts have a
  property.

Main results:

* `Groundwork.mapM_map_eq_some` — what is encoded item by item is decoded item by item.
-/
import Groundwork.Datum

set_option relaxedAutoImplicit false
set_option autoImplicit false

namespace Groundwork

theorem mapM_map_eq_some {α β : Type} {encode : α → β} {decode : β → Option α} {l : List α}
    (h : ∀ a ∈ l, decode (encode a) = some a) : (l.map encode).mapM decode = some l := by
  induction l with
  | nil => rfl
  | cons a l ih =>
      rw [List.forall_mem_cons] at h
      rw [List.map_cons, List.mapM_cons, h.1, ih h.2]
      rfl

namespace Datum

/-- Data of texts, lists and records, all of whose texts have a property; the names of members are
texts, too. -/
inductive Texts (P : String → Prop) : Datum → Prop
  | text {s : String} : P s → Texts P (.text s)
  | list {l : List Datum} : (∀ d ∈ l, Texts P d) → Texts P (.list l)
  | record {l : List (String × Datum)} :
      (∀ m ∈ l, P m.1) → (∀ m ∈ l, Texts P m.2) → Texts P (.record l)

theorem Texts.nil_record {P : String → Prop} : Texts P (.record []) :=
  .record (fun _ hm => nomatch hm) fun _ hm => nomatch hm

theorem Texts.cons_record {P : String → Prop} {k : String} {d : Datum} {l : List (String × Datum)}
    (hk : P k) (hd : Texts P d) (hl : Texts P (.record l)) : Texts P (.record ((k, d) :: l)) := by
  obtain _ | _ | ⟨hnames, hvalues⟩ := hl
  exact .record (List.forall_mem_cons.2 ⟨hk, hnames⟩) (List.forall_mem_cons.2 ⟨hd, hvalues⟩)

theorem Texts.imp {P Q : String → Prop} (hPQ : ∀ s, P s → Q s) {d : Datum} (h : Texts P d) :
    Texts Q d := by
  induction h with
  | text hs => exact .text (hPQ _ hs)
  | list _ ih => exact .list ih
  | record hnames _ ih => exact .record (fun m hm => hPQ _ (hnames m hm)) ih

end Datum

end Groundwork
