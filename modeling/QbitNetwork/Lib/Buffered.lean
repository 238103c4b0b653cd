import Mathlib.Data.List.Basic

/-! A buffered stream: what has arrived and what will, in chunks, before the end. What is read off it depends
on what was written, not on where the chunks end. -/
namespace Buffered
variable {α β : Type}

structure Stream (α : Type) where
  buffer : List α := []
  coming : List (List α)

namespace Stream

def all (s : Stream α) : List α := s.buffer ++ s.coming.flatten

end Stream

def exactly (n : Nat) : List (List α) → List α → Option (List α × Stream α)
  | [],buffer => if n ≤ buffer.length then some (buffer.take n,⟨buffer.drop n,[]⟩) else none
  | chunk :: rest,buffer =>
    if n ≤ buffer.length then some (buffer.take n,⟨buffer.drop n,chunk :: rest⟩) else exactly n rest (buffer ++ chunk)

def Stream.exactly (s : Stream α) (n : Nat) : Option (List α × Stream α) := Buffered.exactly n s.coming s.buffer

def cutAt (stop : α → Bool) (buffer : List α) : Option (List α × List α) :=
  (buffer.findIdx? stop).map (fun i => (buffer.take (i + 1),buffer.drop (i + 1)))

def line (stop : α → Bool) (limit : Nat) : List (List α) → List α → Option (List α × Stream α)
  | coming,buffer =>
    match cutAt stop buffer with
    | some (text,rest) => if limit < text.length - 1 then none else some (text,⟨rest,coming⟩)
    | none =>
      if limit < buffer.length then none
      else match coming with
      | [] => some (buffer,⟨[],[]⟩)
      | chunk :: rest => line stop limit rest (buffer ++ chunk)

def Stream.line (s : Stream α) (stop : α → Bool) (limit : Nat) : Option (List α × Stream α) :=
  Buffered.line stop limit s.coming s.buffer

section Laws
variable {text more : List α}

theorem exactlyTakes : ∀ {coming : List (List α)} {buffer : List α}, buffer ++ coming.flatten = text ++ more →
    ∃ rest, exactly text.length coming buffer = some (text,rest) ∧ rest.all = more := by
  intro coming
  induction coming with
  | nil =>
    intro buffer whole
    rw [List.flatten_nil,List.append_nil] at whole
    refine ⟨⟨more,[]⟩,?_,by simp [Stream.all]⟩
    rw [exactly,if_pos (by rw [whole,List.length_append]; omega),whole,List.take_left,List.drop_left]
  | cons chunk rest ih =>
    intro buffer whole
    rw [exactly]
    split
    · rename_i enough
      refine ⟨⟨buffer.drop text.length,chunk :: rest⟩,?_,?_⟩
      · have start : buffer.take text.length = text := by
          rw [← List.take_append_of_le_length enough,whole,List.take_left]
        rw [start]
      · rw [Stream.all,← List.drop_append_of_le_length enough,whole,List.drop_left]
    · rw [List.flatten_cons,← List.append_assoc] at whole
      exact ih whole

theorem Stream.exactlyTakes {s : Stream α} (whole : s.all = text ++ more) :
    ∃ rest, s.exactly text.length = some (text,rest) ∧ rest.all = more := Buffered.exactlyTakes whole

variable {stop : α → Bool} {limit : Nat}

theorem cutAtStop {last : α} (clean : ∀ a ∈ text, stop a = false) (stops : stop last = true) :
    cutAt stop (text ++ last :: more) = some (text ++ [last],more) := by
  have first : (text ++ last :: more).findIdx? stop = some text.length := by
    rw [List.findIdx?_append,List.findIdx?_eq_none_iff.mpr clean]
    simp [List.findIdx?_cons,stops]
  have split : text ++ last :: more = (text ++ [last]) ++ more := by simp
  rw [cutAt,first,Option.map_some,split]
  have size : text.length + 1 = (text ++ [last]).length := by simp
  rw [size,List.take_left,List.drop_left]

theorem cutAtNone (clean : ∀ a ∈ text, stop a = false) : cutAt stop text = none := by
  rw [cutAt,List.findIdx?_eq_none_iff.mpr clean,Option.map_none]

theorem lineTakes {last : α} (clean : ∀ a ∈ text, stop a = false) (stops : stop last = true)
    (short : text.length ≤ limit) : ∀ {coming : List (List α)} {buffer : List α},
      buffer ++ coming.flatten = text ++ last :: more →
        ∃ rest, line stop limit coming buffer = some (text ++ [last],rest) ∧ rest.all = more := by
  intro coming
  induction coming with
  | nil =>
    intro buffer whole
    rw [List.flatten_nil,List.append_nil] at whole
    refine ⟨⟨more,[]⟩,?_,by simp [Stream.all]⟩
    rw [line,whole,cutAtStop clean stops]
    dsimp only
    rw [if_neg (by rw [List.length_append,List.length_singleton]; omega)]
  | cons chunk rest ih =>
    intro buffer whole
    rcases List.append_eq_append_iff.mp whole with ⟨between,here,there⟩ | ⟨between,here,there⟩
    · -- The line goes on behind the buffer.
      have waiting : cutAt stop buffer = none :=
        cutAtNone (fun a inside => clean a (here ▸ List.mem_append_left _ inside))
      have size : buffer.length ≤ text.length := by rw [here,List.length_append]; omega
      rw [line,waiting]
      dsimp only
      rw [if_neg (by omega)]
      rw [List.flatten_cons,← List.append_assoc] at whole
      exact ih whole
    · cases between with
      | nil =>
        have waiting : cutAt stop buffer = none := by
          rw [here,List.append_nil]
          exact cutAtNone clean
        have size : buffer.length = text.length := by rw [here,List.append_nil]
        rw [line,waiting]
        dsimp only
        rw [if_neg (by omega)]
        rw [List.flatten_cons,← List.append_assoc] at whole
        exact ih whole
      | cons a between =>
        rw [List.cons_append,List.cons.injEq] at there
        obtain ⟨rfl,there⟩ := there
        refine ⟨⟨between,chunk :: rest⟩,?_,there.symm⟩
        rw [line,here,cutAtStop clean stops]
        dsimp only
        rw [if_neg (by rw [List.length_append,List.length_singleton]; omega)]

theorem Stream.lineTakes {s : Stream α} {last : α} (clean : ∀ a ∈ text, stop a = false) (stops : stop last = true)
    (short : text.length ≤ limit) (whole : s.all = text ++ last :: more) :
    ∃ rest, s.line stop limit = some (text ++ [last],rest) ∧ rest.all = more :=
  Buffered.lineTakes clean stops short whole

end Laws

section Sequence
variable {μ : Type}

def readAll (read : β → Stream α → Option (μ × Stream α)) : List β → Stream α → Option (List μ × Stream α)
  | [],s => some ([],s)
  | turn :: rest,s =>
    match read turn s with
    | none => none
    | some (message,s) => (readAll read rest s).map (fun read => (message :: read.1,read.2))

theorem readAllTakes {σ : Type} {read : β → Stream α → Option (μ × Stream α)} {turn : σ → β} {text : σ → List α}
    {message : σ → μ} {sent : List σ}
    (takes : ∀ x ∈ sent, ∀ (s : Stream α) (more : List α), s.all = text x ++ more →
      ∃ rest, read (turn x) s = some (message x,rest) ∧ rest.all = more) :
    ∀ {s : Stream α} {more : List α}, s.all = (sent.map text).flatten ++ more →
      ∃ rest, readAll read (sent.map turn) s = some (sent.map message,rest) ∧ rest.all = more := by
  induction sent with
  | nil =>
    intro s more whole
    exact ⟨s,rfl,by simpa using whole⟩
  | cons x later ih =>
    intro s more whole
    rw [List.map_cons,List.flatten_cons,List.append_assoc] at whole
    obtain ⟨rest,read,left⟩ := takes x (List.mem_cons_self ..) s _ whole
    obtain ⟨final,others,end'⟩ := ih (fun y inside => takes y (List.mem_cons_of_mem _ inside)) left
    exact ⟨final,by simp only [List.map_cons,readAll,read,others,Option.map_some],end'⟩

end Sequence

end Buffered
