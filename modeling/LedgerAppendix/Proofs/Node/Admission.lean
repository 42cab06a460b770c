import LedgerAppendix.Proofs.Appendix.Admission
import LedgerAppendix.Proofs.Attachment.Set
import LedgerAppendix.Proofs.Node.Run

/-!
# Reading again what was admitted

A set that a node admits is read back from its attachment object, always, and from its bytes just if
its lengths fit their fields on the wire. Limits that fit the wire see to that. The standard ones
do, but an environment may give others, and then a poll is admitted that names more voters than its
count can say.
-/

namespace LedgerAppendix

theorem Limits.fitWire_standard : Limits.standard.FitWire :=
  ⟨by decide, by decide, by decide⟩

namespace Node

theorem validate_eq_ok_iff {n : Node} {faults : Faults} {config : Config} {tx : Transaction}
    {s : AppendixSet} :
    (n.perform faults config (.validate tx s)).1 = .admission (.ok ()) ↔
      s.refusal? tx config.limits (n.keys faults) = none := by
  show Reply.admission (n.validate faults config.limits tx s).1 = _ ↔ _
  rw [Reply.admission.injEq]
  rcases validate_cases (Prod.eta (n.validate faults config.limits tx s)).symm with
    ⟨hnone, hr, -⟩ | ⟨refusal, hrefusal, hr, -⟩
  · simp [hr, hnone]
  · simp [hr, hrefusal]

theorem perform_parseObject (n : Node) (faults : Faults) (config : Config) (o : Json.Object) :
    (n.perform faults config (.parseObject o)).1 = .appendices (AppendixSet.ofObject o) :=
  congrArg Reply.appendices (parseObject_cases (Prod.eta (n.parseObject o)).symm).1

theorem perform_parseBytes (n : Node) (faults : Faults) (config : Config) (flags : UInt32)
    (data : List UInt8) (version : UInt8) :
    (n.perform faults config (.parseBytes flags data version)).1 =
      .appendices (AppendixSet.decode flags data version config.limits) :=
  congrArg Reply.appendices
    (parseBytes_cases (Prod.eta (n.parseBytes config.limits flags data version)).symm).1

/-- A set that was admitted under a configuration is read back under it, at any later time. -/
theorem reread_of_admitted {n : Node} {faults : Faults} {config : Config} {tx : Transaction}
    {s : AppendixSet}
    (hadmitted : (n.perform faults config (.validate tx s)).1 = .admission (.ok ()))
    (later : Node) (faults' : Faults) :
    (later.perform faults' config (.parseObject s.toObject)).1 = .appendices (.ok s) ∧
    ((later.perform faults' config (.parseBytes s.flags s.toBytes tx.version)).1 =
      .appendices (.ok s) ↔ s.LengthsFit) ∧
    (config.limits.FitWire → s.LengthsFit) := by
  have hrefusal := validate_eq_ok_iff.1 hadmitted
  have hrules := AppendixSet.of_refusal? hrefusal
  refine ⟨?_, ?_, ?_⟩
  · have hshown : s.shown = s := by
      apply AppendixSet.shown_of_text
      intro m hm
      have hmem : .message m ∈ s.toList := AppendixSet.mem_toList.2 (congrArg (Option.map _) hm)
      exact (Message.of_violation? (hrules _ hmem).2).2
    rw [perform_parseObject, AppendixSet.ofObject_toObject, hshown]
  · rw [perform_parseBytes, Reply.appendices.injEq, AppendixSet.decode_eq_ok_iff,
      AppendixSet.wireValid_iff_of_refusal? hrefusal]
    simp
  · intro hlimits a ha
    exact Appendix.lengthsFit_of_limits hlimits (hrules a ha).2

/-! ### Two sets -/

/-- An ordinary payment of a transaction version that has appendix versions. -/
def payment : Transaction := ⟨7, 1, .ordinaryPayment, 1, some 2, 10, 100⟩

/-- A text and a poll. -/
def textAndPoll : AppendixSet :=
  { AppendixSet.empty with
    message := some ⟨1, [104, 195, 164], true⟩
    phasing := some ⟨1, 200, 3, 1, .asset 77, [11, 12]⟩ }

theorem reread_of_admitted_textAndPoll :
    ((ofLedger .empty).perform .none .standard (.validate payment textAndPoll)).1 =
        .admission (.ok ()) ∧
      ((ofLedger .empty).perform .none .standard (.parseObject textAndPoll.toObject)).1 =
        .appendices (.ok textAndPoll) ∧
      ((ofLedger .empty).perform .none .standard
        (.parseBytes textAndPoll.flags textAndPoll.toBytes 1)).1 =
        .appendices (.ok textAndPoll) := by
  have hadmitted : ((ofLedger .empty).perform .none .standard
      (.validate payment textAndPoll)).1 = .admission (.ok ()) := by rfl
  obtain ⟨hobject, hbytes, hfit⟩ := reread_of_admitted hadmitted (ofLedger .empty) .none
  exact ⟨hadmitted, hobject, hbytes.2 (hfit Limits.fitWire_standard)⟩

/-- An environment that sets the limit for voters, and nothing else. -/
def votersAllowed (count : String) : String → Option String :=
  fun name => if name = "QC_APPENDIX_MAX_VOTERS" then some count else none

/-- A poll that names one voter more than its count can say. -/
def crowdedPoll : AppendixSet :=
  { AppendixSet.empty with
    phasing := some ⟨1, 200, 1, 1, .account, (List.range 256).map (UInt64.ofNat ·)⟩ }

/-- The poll is admitted, but its bytes are not read as the poll that they spell. -/
theorem crowdedPoll_admitted_not_reread :
    ((ofLedger .empty).perform .none (.ofEnvironment (votersAllowed "256"))
        (.validate payment crowdedPoll)).1 = .admission (.ok ()) ∧
      ((ofLedger .empty).perform .none (.ofEnvironment (votersAllowed "256"))
        (.parseBytes crowdedPoll.flags crowdedPoll.toBytes payment.version)).1 ≠
        .appendices (.ok crowdedPoll) := by
  have hlimits : (Config.ofEnvironment (votersAllowed "256")).limits = ⟨1000, 1000, 256⟩ := by
    decide +kernel
  constructor
  · have hadmitted : (crowdedPoll.refusal? payment ⟨1000, 1000, 256⟩
        ((ofLedger .empty).keys .none)).isNone = true := by decide +kernel
    rw [validate_eq_ok_iff, hlimits, ← Option.isNone_iff_eq_none]
    exact hadmitted
  · have hlossy : ¬crowdedPoll.WireValid payment.version ⟨1000, 1000, 256⟩ := by decide +kernel
    rw [perform_parseBytes, hlimits, ne_eq, Reply.appendices.injEq, AppendixSet.decode_eq_ok_iff]
    exact fun hread => hlossy hread.1.2

end Node

end LedgerAppendix
