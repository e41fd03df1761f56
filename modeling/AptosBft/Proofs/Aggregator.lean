import AptosBft.Calls
import AptosBft.Lib.Firsts
import AptosBft.Lib.Mealy

/-! The accounts of the signature aggregator. The map, the power and the count are kept
apart, and all three follow from the additions since the last clear. -/

namespace AptosBft.Proofs.Aggregator
open Rust Mealy Firsts AptosBft.SignatureAggregator

variable {N S : Type}

structure Addition (N S : Type) where
  validatorId : N
  signature : S
  votingPower : U64
  deriving DecidableEq

/-- The additions since the last clear. -/
def since (calls : List (Call N S)) : List (Addition N S) :=
  calls.foldl (fun additions input => match input with
    | .addSignature validatorId signature votingPower => additions ++ [⟨validatorId, signature, votingPower⟩]
    | .clear => []) []

@[simp] theorem since_add (calls : List (Call N S)) (validatorId : N) (signature : S) (votingPower : U64) :
    since (calls ++ [.addSignature validatorId signature votingPower]) = since calls ++ [⟨validatorId, signature, votingPower⟩] := by
  rw [since, List.foldl_append]
  rfl

@[simp] theorem since_clear (calls : List (Call N S)) : since (calls ++ [.clear]) = [] := by
  rw [since, List.foldl_append]
  rfl

variable [DecidableEq N]

def signers (additions : List (Addition N S)) : Finset N := keys Addition.validatorId additions

def firstPowers (additions : List (Addition N S)) : Nat := total Addition.validatorId (fun addition => addition.votingPower.val) additions

/-- Each validator is there once, with its first signature and its first power. -/
structure Accounts (additions : List (Addition N S)) (aggregator : SignatureAggregator N S) : Prop where
  signature : ∀ validator, aggregator.getSignature validator =
    (first Addition.validatorId additions validator).map Addition.signature
  signed : ∀ validator, aggregator.hasSigned validator = true ↔ validator ∈ signers additions
  count : aggregator.signerCount = (signers additions).card
  power : aggregator.votingPower = firstPowers additions

section Steps
variable {additions : List (Addition N S)} {addition : Addition N S} {aggregator : SignatureAggregator N S}

theorem firstPowers_lt (few : (signers additions).card ≤ u64Max.val) : firstPowers additions < U128.size := by
  have bound : firstPowers additions ≤ (signers additions).card * u64Max.val :=
    total_le fun addition => Nat.le_of_lt_succ addition.votingPower.isLt
  exact U128.lt_size_of_words bound few

theorem Accounts.new : Accounts [] (SignatureAggregator.new : SignatureAggregator N S) where
  signature _ := rfl
  signed validator := by simp [hasSigned, SignatureAggregator.new, signers]
  count := rfl
  power := rfl

theorem Accounts.mem (accounts : Accounts additions aggregator) (validator : N) :
    validator ∈ aggregator.signatures ↔ validator ∈ signers additions := by
  rw [← accounts.signed, hasSigned, decide_eq_true_eq]

/-- A further addition of a signer changes nothing. -/
theorem Accounts.repeated (accounts : Accounts additions aggregator) (old : addition.validatorId ∈ signers additions) :
    Accounts (additions ++ [addition]) aggregator where
  signature validator := by rw [first_snoc_old old, accounts.signature]
  signed validator := by rw [signers, keys_snoc_old old, accounts.signed, signers]
  count := by rw [signers, keys_snoc_old old, accounts.count, signers]
  power := by rw [firstPowers, total_snoc_old old, accounts.power, firstPowers]

theorem Accounts.added (accounts : Accounts additions aggregator) (fresh : addition.validatorId ∉ signers additions) :
    Accounts (additions ++ [addition]) ⟨aggregator.signatures.insert addition.validatorId addition.signature,
      aggregator.votingPower + addition.votingPower.val, aggregator.signerCount + 1⟩ where
  signature validator := by
    rw [first_snoc_new fresh, getSignature]
    by_cases own : validator = addition.validatorId
    · subst own
      rw [AList.lookup_insert, if_pos rfl]
      rfl
    · rw [AList.lookup_insert_ne own, if_neg own]
      exact accounts.signature validator
  signed validator := by
    rw [signers, keys_snoc, Finset.mem_insert, hasSigned, decide_eq_true_eq, AList.mem_insert, accounts.mem]
    rfl
  count := by rw [signers, card_keys_snoc_new fresh, accounts.count, signers]
  power := by rw [firstPowers, total_snoc_new fresh, accounts.power, firstPowers]

/-- With few enough signers the words hold the sums. -/
theorem addSignatureWords_eq (profile : Profile) {validatorId : N} {signature : S} {votingPower : U64}
    (power : aggregator.votingPower + votingPower.val < U128.size) (count : aggregator.signerCount + 1 < 18446744073709551616) :
    aggregator.addSignatureWords profile validatorId signature votingPower =
      (.ok (), aggregator.addSignature validatorId signature votingPower) := by
  rw [addSignatureWords, addSignature]
  split
  · rfl
  · simp only [U128.plus, U128.narrow_of_lt profile power, Usize.plus, if_pos count]

theorem Accounts.call (accounts : Accounts additions aggregator) (profile : Profile)
    (few : (signers (additions ++ [addition])).card ≤ u64Max.val) :
    ∃ after, call profile aggregator (.addSignature addition.validatorId addition.signature addition.votingPower) = (.ok (), after) ∧
      Accounts (additions ++ [addition]) after := by
  by_cases old : addition.validatorId ∈ signers additions
  · refine ⟨aggregator, ?_, accounts.repeated old⟩
    rw [AptosBft.SignatureAggregator.call, addSignatureWords, if_pos ((accounts.mem _).mpr old)]
  · have added := accounts.added old
    refine ⟨_, ?_, added⟩
    have power := firstPowers_lt few
    rw [← added.power] at power
    have count : aggregator.signerCount + 1 < 18446744073709551616 :=
      Nat.lt_of_le_of_lt (added.count.trans_le few) (by decide)
    rw [AptosBft.SignatureAggregator.call, addSignatureWords_eq profile power count, addSignature,
      if_neg (fun member => old ((accounts.mem _).mp member))]

end Steps

/-- Never more signers at once than a `usize` counts. -/
def Few (calls : List (Call N S)) : Prop := ∀ start, start <+: calls → (signers (since start)).card ≤ u64Max.val

theorem Few.start {calls : List (Call N S)} {input : Call N S} (few : Few (calls ++ [input])) : Few calls := by
  intro start before
  exact few start (before.trans (List.prefix_append _ _))

theorem exec_accounts (profile : Profile) {calls : List (Call N S)} (few : Few calls) :
    Accounts (since calls) (exec (call profile) .new calls) ∧ ∀ current ∈ trace (call profile) .new calls, current.output = .ok () := by
  induction calls using List.reverseRecOn with
  | nil => exact ⟨.new, by simp⟩
  | append_singleton calls input ih =>
    obtain ⟨accounts, returned⟩ := ih few.start
    have outputs : ∀ current ∈ trace (call profile) .new (calls ++ [input]),
        (call profile (exec (call profile) .new calls) input).1 = .ok () → current.output = .ok () := by
      intro current member last
      rw [trace_append] at member
      rcases List.mem_append.mp member with before | here
      · exact returned current before
      · rw [List.mem_singleton.mp here]
        exact last
    rw [exec_append]
    cases input with
    | clear =>
      rw [since_clear]
      exact ⟨Accounts.new, fun current member => outputs current member rfl⟩
    | addSignature validatorId signature votingPower =>
      have now := few _ List.prefix_rfl
      rw [since_add] at now ⊢
      obtain ⟨after, added, kept⟩ := accounts.call profile now
      refine ⟨?_, fun current member => outputs current member (congrArg Prod.fst added)⟩
      rw [exec_cons, exec_nil, added]
      exact kept

/-- Two aggregators in the same state. A hash map has no order of its own. -/
structure Same (left right : SignatureAggregator N S) : Prop where
  signatures : left.signatures.toFinmap = right.signatures.toFinmap
  power : left.votingPower = right.votingPower
  count : left.signerCount = right.signerCount

theorem Accounts.same {additions others : List (Addition N S)} {left right : SignatureAggregator N S}
    (accounts : Accounts additions left) (kept : Accounts others right) (consistent : Consistent Addition.validatorId additions)
    (equal : ∀ addition, addition ∈ additions ↔ addition ∈ others) : Same left right where
  signatures := by
    refine Finmap.ext_lookup ?_
    intro validator
    have held := accounts.signature validator
    rw [first_congr consistent equal, ← kept.signature] at held
    exact held
  power := by rw [accounts.power, kept.power, firstPowers, firstPowers, total_congr consistent equal]
  count := by rw [accounts.count, kept.count, signers, signers, keys_congr equal]

/-- After any calls the three fields agree with the additions since the last clear, without
an overflow. Where nobody is added in two ways, only the set of additions counts. -/
theorem signatures_accounted (profile : Profile) (calls : List (Call N S)) (few : Few calls) :
    (Accounts (since calls) (exec (call profile) .new calls) ∧
      (exec (call profile) .new calls : SignatureAggregator N S).votingPower < U128.size ∧
      ∀ current ∈ trace (call profile) .new calls, current.output = .ok ()) ∧
    ∀ others : List (Call N S), Few others → Consistent Addition.validatorId (since calls) →
      (∀ addition, addition ∈ since calls ↔ addition ∈ since others) →
      Same (exec (call profile) .new calls) (exec (call profile) .new others) := by
  obtain ⟨accounts, returned⟩ := exec_accounts profile few
  refine ⟨⟨accounts, ?_, returned⟩, ?_⟩
  · rw [accounts.power]
    exact firstPowers_lt (few calls List.prefix_rfl)
  · intro others limited consistent equal
    exact accounts.same (exec_accounts profile limited).1 consistent equal

omit [DecidableEq N] in
theorem since_length_le (calls : List (Call N S)) : (since calls).length ≤ calls.length := by
  induction calls using List.reverseRecOn with
  | nil => exact le_rfl
  | append_singleton calls input ih =>
    rw [List.length_append]
    cases input with
    | clear =>
      rw [since_clear]
      exact Nat.zero_le _
    | addSignature validatorId signature votingPower =>
      rw [since_add, List.length_append]
      exact Nat.add_le_add_right ih 1

theorem few_of_length {calls : List (Call N S)} (short : calls.length ≤ u64Max.val) : Few calls := by
  intro start before
  have distinct : (signers (since start)).card ≤ (since start).length := by
    rw [signers, keys]
    exact (List.toFinset_card_le _).trans_eq (List.length_map ..)
  exact distinct.trans ((since_length_le start).trans (before.length_le.trans short))

theorem repeated_votes_counted_once :
    let calls : List (Call Nat Nat) := [.addSignature 9 9 9, .clear, .addSignature 0 1 100, .addSignature 1 5 50, .addSignature 0 1 100]
    let others : List (Call Nat Nat) := [.addSignature 1 5 50, .addSignature 0 1 100]
    Accounts (since calls) (exec (call .dev) .new calls) ∧
    (exec (call .dev) .new calls : SignatureAggregator Nat Nat).votingPower = 150 ∧
    Same (exec (call .dev) .new calls : SignatureAggregator Nat Nat) (exec (call .dev) .new others) := by
  intro calls others
  obtain ⟨⟨accounts, _, _⟩, same⟩ := signatures_accounted .dev calls (few_of_length (by decide))
  have consistent : Consistent Addition.validatorId (since calls) := by
    unfold Consistent
    decide
  refine ⟨accounts, by decide, same others (few_of_length (by decide)) consistent ?_⟩
  intro addition
  have repeated : since calls = [⟨0, 1, 100⟩, ⟨1, 5, 50⟩, ⟨0, 1, 100⟩] := rfl
  have reordered : since others = [⟨1, 5, 50⟩, ⟨0, 1, 100⟩] := rfl
  rw [repeated, reordered]
  simp only [List.mem_cons, List.not_mem_nil, or_false]
  tauto

end AptosBft.Proofs.Aggregator
