import Mathlib.Algebra.Order.Ring.Nat
import Mathlib.Data.List.Basic

/-! Messages read from a stream that hands them out in pieces: what a reader takes depends on what was
written, not on where the pieces end. -/
namespace Framing
variable {α β γ μ : Type}

abbrev Pieces (α : Type) := List (List α)

def readExact (n : Nat) : List α → Pieces α → Option (List α × Pieces α)
  | buf,[] => if n ≤ buf.length then some (buf,[]) else none
  | buf,piece :: rest =>
    if n ≤ buf.length then some (buf,piece :: rest)
    else if piece.isEmpty then none
    else if buf.length + piece.length ≤ n then readExact n (buf ++ piece) rest
    else some (buf ++ piece.take (n - buf.length),piece.drop (n - buf.length) :: rest)

abbrev Reader (α β : Type) := Pieces α → Option (β × Pieces α)

namespace Reader

def exact (n : Nat) : Reader α (List α) := readExact n []

def done (b : β) : Reader α β := fun pieces => some (b,pieces)

def andThen (r : Reader α β) (f : β → Reader α γ) : Reader α γ := fun pieces =>
  match r pieces with
  | some (b,rest) => f b rest
  | none => none

def all (r : Reader α β) : Nat → Pieces α → List β
  | 0,_ => []
  | turns + 1,pieces =>
    match r pieces with
    | some (b,rest) => b :: all r turns rest
    | none => []

end Reader

def Solid (pieces : Pieces α) : Prop := ∀ piece ∈ pieces, piece ≠ []

structure Reads (r : Reader α β) (text : List α) (b : β) : Prop where
  whole : ∀ (pieces : Pieces α) (more : List α), Solid pieces → pieces.flatten = text ++ more →
    ∃ rest, r pieces = some (b,rest) ∧ Solid rest ∧ rest.flatten = more
  short : ∀ (pieces : Pieces α) (missing : List α), Solid pieces → missing ≠ [] →
    pieces.flatten ++ missing = text → r pieces = none

section Exact
variable {n : Nat} {pieces : Pieces α}

theorem readExactWhole (solid : Solid pieces) :
    ∀ {buf : List α}, buf.length ≤ n → n ≤ buf.length + pieces.flatten.length →
      ∃ rest, readExact n buf pieces = some ((buf ++ pieces.flatten).take n,rest) ∧ Solid rest ∧
        rest.flatten = (buf ++ pieces.flatten).drop n := by
  induction pieces with
  | nil =>
    intro buf upTo enough
    have full : buf.length = n := by
      rw [List.flatten_nil,List.length_nil] at enough
      omega
    refine ⟨[],?_,solid,?_⟩
    · rw [readExact,if_pos full.ge,List.flatten_nil,List.append_nil,List.take_of_length_le full.le]
    · rw [List.flatten_nil,List.append_nil,List.drop_of_length_le full.le]
  | cons piece rest ih =>
    intro buf upTo enough
    have later : Solid rest := fun p inside => solid p (List.mem_cons_of_mem _ inside)
    have some : piece ≠ [] := solid piece (List.mem_cons_self ..)
    rw [List.flatten_cons,List.length_append] at enough
    rw [readExact,List.flatten_cons]
    split
    · rename_i full
      have same : buf.length = n := by omega
      refine ⟨piece :: rest,?_,solid,?_⟩
      · rw [List.take_append_of_le_length same.ge,List.take_of_length_le same.le]
      · rw [List.drop_append_of_le_length same.ge,List.drop_of_length_le same.le,List.nil_append,List.flatten_cons]
    · rename_i open'
      rw [if_neg (by simpa using some)]
      split
      · rename_i fits
        have next := @ih later (buf ++ piece) (by rw [List.length_append]; omega)
          (by rw [List.length_append]; omega)
        rwa [List.append_assoc] at next
      · rename_i long
        refine ⟨piece.drop (n - buf.length) :: rest,?_,?_,?_⟩
        · rw [List.take_append,List.take_of_length_le upTo,List.take_append_of_le_length (by omega)]
        · intro p inside
          rcases List.mem_cons.mp inside with rfl | inside
          · rw [ne_eq,List.drop_eq_nil_iff]
            omega
          · exact later p inside
        · rw [List.drop_append,List.drop_of_length_le upTo,List.nil_append,
            List.drop_append_of_le_length (by omega),List.flatten_cons]

theorem readExactShort (solid : Solid pieces) :
    ∀ {buf : List α}, buf.length + pieces.flatten.length < n → readExact n buf pieces = none := by
  induction pieces with
  | nil =>
    intro buf short
    rw [List.flatten_nil,List.length_nil] at short
    rw [readExact,if_neg (by omega)]
  | cons piece rest ih =>
    intro buf short
    rw [List.flatten_cons,List.length_append] at short
    rw [readExact,if_neg (by omega),if_neg (by simpa using solid piece (List.mem_cons_self ..)),if_pos (by omega)]
    exact ih (fun p inside => solid p (List.mem_cons_of_mem _ inside)) (by rw [List.length_append]; omega)

theorem readsExact (text : List α) : Reads (.exact text.length) text text where
  whole pieces more solid whole := by
    have read := @readExactWhole _ text.length _ solid [] (Nat.zero_le _)
      (by rw [whole,List.length_append,List.length_nil]; omega)
    rw [List.nil_append,whole,List.take_left,List.drop_left] at read
    exact read
  short pieces missing solid more whole := by
    refine readExactShort solid ?_
    have size := congrArg List.length whole
    have left := List.length_pos_iff.mpr more
    rw [List.length_append] at size
    rw [List.length_nil]
    omega

end Exact

section Laws
variable {r : Reader α β} {text : List α} {b : β}

theorem readsDone (b : β) : Reads (α := α) (.done b) [] b where
  whole pieces _ solid whole := ⟨pieces,rfl,solid,whole⟩
  short _ _ _ more whole := absurd (List.append_eq_nil_iff.mp whole).2 more

theorem readsThen {f : β → Reader α γ} {text' : List α} {c : γ} (first : Reads r text b) (second : Reads (f b) text' c) :
    Reads (r.andThen f) (text ++ text') c where
  whole pieces more solid whole := by
    rw [List.append_assoc] at whole
    obtain ⟨rest,read,solid',left⟩ := first.whole pieces _ solid whole
    obtain ⟨rest',read',solid'',left'⟩ := second.whole rest more solid' left
    exact ⟨rest',by simp only [Reader.andThen,read,read'],solid'',left'⟩
  short pieces missing solid more whole := by
    rcases List.append_eq_append_iff.mp whole with ⟨between,here,there⟩ | ⟨between,here,there⟩
    · by_cases none : between = []
      · rw [none,List.append_nil] at here
        obtain ⟨rest,read,solid',left⟩ := first.whole pieces [] solid (by rw [← here,List.append_nil])
        have short := second.short rest missing solid' more (by rw [left,List.nil_append,there,none,List.nil_append])
        simp only [Reader.andThen,read,short]
      · simp only [Reader.andThen,first.short pieces between solid none here.symm]
    · obtain ⟨rest,read,solid',left⟩ := first.whole pieces between solid here
      have short := second.short rest missing solid' more (by rw [left,there])
      simp only [Reader.andThen,read,short]

theorem Reads.congr {text' : List α} (reads : Reads r text b) (same : text = text') : Reads r text' b := same ▸ reads

end Laws

section All
variable {r : Reader α β} {write : μ → List α} {made : μ → β}

theorem allReads {sent : List μ} (reads : ∀ m ∈ sent, Reads r (write m) (made m)) {cut : List α}
    (broken : ∀ pieces, Solid pieces → pieces.flatten = cut → r pieces = none) :
    ∀ {turns : Nat} {pieces : Pieces α}, sent.length < turns → Solid pieces →
      pieces.flatten = (sent.map write).flatten ++ cut → r.all turns pieces = sent.map made := by
  induction sent with
  | nil =>
    intro turns pieces enough solid whole
    cases turns with
    | zero => exact absurd enough (by simp)
    | succ turns =>
      rw [List.map_nil,List.flatten_nil,List.nil_append] at whole
      simp only [Reader.all,broken pieces solid whole,List.map_nil]
  | cons m rest ih =>
    intro turns pieces enough solid whole
    rw [List.length_cons] at enough
    cases turns with
    | zero => omega
    | succ turns =>
      rw [List.map_cons,List.flatten_cons,List.append_assoc] at whole
      obtain ⟨left,read,solid',later⟩ := (reads m (List.mem_cons_self ..)).whole pieces _ solid whole
      have others : r.all turns left = rest.map made :=
        ih (fun m' inside => reads m' (List.mem_cons_of_mem _ inside)) (by omega) solid' later
      simp only [Reader.all,read,others,List.map_cons]

end All

end Framing
