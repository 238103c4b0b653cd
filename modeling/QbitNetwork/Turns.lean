import QbitNetwork.Runs

/-! Whose turn it is without stakes: the producer asks before it has a timestamp, the verifier
shifts the turn by the time since the parent. -/
namespace QbitNetwork

section Selection

theorem listAtInjective {α : Type} {items : List α} (distinct : items.Nodup) {i j : Int} (inside : 0 ≤ i ∧ i < items.length)
    (inside' : 0 ≤ j ∧ j < items.length) (same : listAt items i = listAt items j) : i = j := by
  rw [listAt,listAt,if_pos inside.1,if_pos inside'.1] at same
  have place := (List.getElem?_inj (by omega) distinct).mp same
  omega

theorem keysDistinct (validators : Dict Address Bytes) : validators.keys.Nodup :=
  Std.ExtTreeMap.distinct_keys.imp (fun apart same => apart (by rw [same]; exact Std.ReflCmp.compare_self))

theorem turnSkipsOk {parentTimestamp blockTimestamp skips : Int} (after : parentTimestamp < blockTimestamp) :
    turnSkips parentTimestamp blockTimestamp = .ok skips ↔
      RoundedQuotient.whole 53 (blockTimestamp - parentTimestamp).toNat 15 < 2 ^ 1024 ∧
      skips = RoundedQuotient.whole 53 (blockTimestamp - parentTimestamp).toNat 15 := by
  have gap : (blockTimestamp - parentTimestamp).natAbs = (blockTimestamp - parentTimestamp).toNat := by omega
  have slot : (blockInterval * 3).toNat = 15 := by decide
  have sign : (blockTimestamp - parentTimestamp).sign = 1 := Int.sign_eq_one_of_pos (by omega)
  rw [turnSkips,wholeQuotient,gap,slot,sign]
  generalize RoundedQuotient.whole 53 (blockTimestamp - parentTimestamp).toNat 15 = whole
  by_cases fits : whole < 2 ^ 1024
  · rw [if_pos fits,Int.one_mul,and_iff_right fits]
    simp only [bind,Except.bind,Except.ok.injEq]
    rw [Int.max_eq_right (Int.natCast_nonneg whole)]
    exact eq_comm
  · rw [if_neg fits]
    refine iff_of_false (fun raised => ?_) (fun both => fits both.1)
    cases raised

theorem selectPoaSame [Env] (validators : Dict Address Bytes) (blockIndex parentTimestamp blockTimestamp : Int) :
    selectPoa validators blockIndex none = selectPoa validators blockIndex (some (parentTimestamp,blockTimestamp)) ↔
      validators.keys = [] ∨ ∃ skips, turnSkips parentTimestamp blockTimestamp = .ok skips ∧
        (validators.keys.length : Int) ∣ skips := by
  unfold selectPoa
  by_cases none : validators.keys = []
  · simp [none]
  · have some : validators.keys.isEmpty = false := by simpa using none
    have positive : (0 : Int) < validators.keys.length := by
      have := List.length_pos_iff.mpr none
      omega
    have apart : (validators.keys.length : Int) ≠ 0 := by omega
    have base := Int.emod_nonneg blockIndex apart
    have below := Int.emod_lt_of_pos blockIndex positive
    have unmoved : (blockIndex % validators.keys.length + 0) % validators.keys.length =
        blockIndex % validators.keys.length := by rw [Int.add_zero,Int.emod_emod]
    simp only [some,none,false_or,Bool.false_eq_true,if_false]
    cases moved : turnSkips parentTimestamp blockTimestamp with
    | error exception => simp [bind,Except.bind]
    | ok skips =>
      have shifted := Int.emod_nonneg (blockIndex % validators.keys.length + skips) apart
      have within := Int.emod_lt_of_pos (blockIndex % validators.keys.length + skips) positive
      simp only [bind,Except.bind,Except.ok.injEq,exists_eq_left']
      rw [unmoved]
      constructor
      · intro same
        have place := listAtInjective (keysDistinct validators) ⟨base,below⟩ ⟨shifted,within⟩ same
        have rest := Int.emod_eq_emod_iff_emod_sub_eq_zero.mp (place.symm.trans (Int.emod_emod ..).symm)
        rw [add_sub_cancel_left] at rest
        exact Int.dvd_of_emod_eq_zero rest
      · rintro ⟨rounds,whole⟩
        rw [whole,Int.add_mul_emod_self_left,Int.emod_emod]

end Selection

namespace Blockchain
variable [Env]

def passesTurn (expected : Except PyExc (Option Address)) (address : Address) : Bool :=
  match expected with
  | .ok expected => !wrongTurn expected address
  | .error _ => false

def passesEarly (s : Blockchain) (parent : Block) (address : Address) : Bool :=
  passesTurn (s.selectValidator (parent.index + 1) parent.blockHash none) address

def passesVerifier (s : Blockchain) (parent block : Block) : Bool :=
  passesTurn (s.selectValidator block.index parent.blockHash (some (parent.timestamp,block.timestamp))) block.validator

structure TurnsAgree (s : Blockchain) (parent : Block) (now : Int) : Prop where
  expected : ∀ address sk, s.selectValidator (parent.index + 1) parent.blockHash none =
    s.selectValidator (s.draftBlock parent address sk now).index parent.blockHash
      (some (parent.timestamp,(s.draftBlock parent address sk now).timestamp))
  passes : ∀ address sk, s.passesEarly parent address = s.passesVerifier parent (s.draftBlock parent address sk now)

def gap (parent : Block) (now : Int) : Nat := (max now (parent.timestamp + 1) - parent.timestamp).toNat

def FullRounds (s : Blockchain) (parent : Block) (now : Int) : Prop :=
  s.state.staking.validators.keys = [] ∨
    RoundedQuotient.whole 53 (gap parent now) 15 < 2 ^ 1024 ∧
      s.state.staking.validators.keys.length ∣ RoundedQuotient.whole 53 (gap parent now) 15

omit [Env] in
theorem fullRoundsNear {s : Blockchain} {parent : Block} {now : Int} (near : gap parent now < 15 * 2 ^ 50) :
    FullRounds s parent now ↔ s.state.staking.validators.keys = [] ∨
      s.state.staking.validators.keys.length ∣ gap parent now / 15 := by
  have floor : RoundedQuotient.whole 53 (gap parent now) 15 = gap parent now / 15 :=
    RoundedQuotient.wholeFloor near (by decide) (by decide)
  have larger {m n : Nat} (less : m < n) : 2 ^ m < 2 ^ n := Nat.pow_lt_pow_right Nat.one_lt_two less
  have fits : gap parent now / 15 < 2 ^ 1024 := (Nat.div_lt_of_lt_mul near).trans (larger (by decide))
  rw [FullRounds,floor,and_iff_right fits]

theorem turnsAgree (s : Blockchain) (unstaked : s.getActiveValidators = []) (parent : Block) (now : Int) :
    (TurnsAgree s parent now ↔ FullRounds s parent now) ∧
    (gap parent now < 15 * 2 ^ 50 → (FullRounds s parent now ↔ s.state.staking.validators.keys = [] ∨
      s.state.staking.validators.keys.length ∣ gap parent now / 15)) := by
  have turn : ∀ hash times, s.selectValidator (parent.index + 1) hash times =
      selectPoa s.state.staking.validators (parent.index + 1) times := by
    intro hash times
    unfold selectValidator
    rw [if_neg (fun both => both.2 unstaked)]
  have agree := selectPoaSame s.state.staking.validators (parent.index + 1) parent.timestamp
    (max now (parent.timestamp + 1))
  rw [← turn parent.blockHash,← turn parent.blockHash] at agree
  have rounds : FullRounds s parent now ↔ s.state.staking.validators.keys = [] ∨ ∃ skips,
      turnSkips parent.timestamp (max now (parent.timestamp + 1)) = .ok skips ∧
        (s.state.staking.validators.keys.length : Int) ∣ skips := by
    refine or_congr_right ?_
    simp only [turnSkipsOk (show parent.timestamp < max now (parent.timestamp + 1) by omega),and_assoc,exists_and_left,
      exists_eq_left,Int.natCast_dvd_natCast,gap]
  refine ⟨⟨fun agrees => ?_,fun full => ?_⟩,fullRoundsNear⟩
  · exact rounds.mpr (agree.mp (agrees.expected "" []))
  · have same := agree.mpr (rounds.mp full)
    exact ⟨fun address sk => same,fun address sk => congrArg (passesTurn · address) same⟩

theorem outOfTurn {s : Blockchain} {parent : Block} {now : Int} {early late : Address}
    (first : s.selectValidator (parent.index + 1) parent.blockHash none = .ok (some early))
    (second : s.selectValidator (parent.index + 1) parent.blockHash
      (some (parent.timestamp,max now (parent.timestamp + 1))) = .ok (some late)) (named : early ≠ "" ∧ late ≠ "")
    (apart : late ≠ early) : ¬TurnsAgree s parent now ∧ ∀ address sk, s.passesEarly parent address = true →
      s.passesVerifier parent (s.draftBlock parent address sk now) = false := by
  constructor
  · intro agrees
    have same := second.symm.trans ((agrees.expected "" []).symm.trans first)
    exact apart (Option.some.inj (Except.ok.inj same))
  intro address sk passes
  have own : early = address := by
    rw [passesEarly,first,passesTurn,Bool.not_eq_true',wrongTurn,Bool.and_eq_false_iff] at passes
    rcases passes with empty | same
    · exact absurd (by simpa using empty) named.1
    · simpa using same
  have turned : wrongTurn (some late) address = true := by
    rw [wrongTurn,Bool.and_eq_true,← own]
    exact ⟨decide_eq_true named.2,decide_eq_true apart⟩
  exact (congrArg (passesTurn · address) second).trans (congrArg (! ·) turned)

end Blockchain

namespace Devnet
attribute [local instance] legacy
open Blockchain

def paired : Blockchain :=
  let s := ((new (.memory [])).addBlock genesis.tipBlock 100).2
  s.withState { s.state with staking := s.state.staking.addValidator "b" key }

theorem pairedTurns : paired.getActiveValidators = [] ∧
    paired.selectValidator (paired.tipBlock.index + 1) paired.tipBlock.blockHash none = .ok (some address) ∧
    paired.selectValidator (paired.tipBlock.index + 1) paired.tipBlock.blockHash
      (some (paired.tipBlock.timestamp,max 115 (paired.tipBlock.timestamp + 1))) = .ok (some "b") ∧
    paired.state.staking.validators.keys.length = 2 ∧ gap paired.tipBlock 130 = 30 := by
  rw [paired,genesisStored.1]
  decide +kernel

/- A quarter of a minute after its parent the block may only be made by the one whom the
verifier turns away, so nobody can make it. -/
theorem turnsDisagree : paired.getActiveValidators = [] ∧ ¬TurnsAgree paired paired.tipBlock 115 ∧
    ∀ address sk, paired.passesEarly paired.tipBlock address = true →
      paired.passesVerifier paired.tipBlock (paired.draftBlock paired.tipBlock address sk 115) = false := by
  have named : (address ≠ "" ∧ "b" ≠ "") ∧ "b" ≠ address := by decide +kernel
  obtain ⟨unstaked,early,late,-⟩ := pairedTurns
  exact ⟨unstaked,outOfTurn early late named.1 named.2⟩

theorem turnsAgreePaired : TurnsAgree paired paired.tipBlock 130 := by
  obtain ⟨unstaked,-,-,two,later⟩ := pairedTurns
  obtain ⟨exact_,near⟩ := turnsAgree paired unstaked paired.tipBlock 130
  rw [exact_,near (by rw [later]; decide),two,later]
  exact .inr (by decide)

end Devnet

end QbitNetwork
