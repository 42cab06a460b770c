import LedgerAppendix.Appendix.Admission
import LedgerAppendix.Appendix.Basic
import LedgerAppendix.Appendix.Error
import LedgerAppendix.Attachment
import LedgerAppendix.Bytes
import LedgerAppendix.Config
import LedgerAppendix.Json.Reader
import LedgerAppendix.Json.Text
import LedgerAppendix.Ledger
import LedgerAppendix.Node.Basic
import LedgerAppendix.Node.Call
import LedgerAppendix.Number
import LedgerAppendix.Poll
import LedgerAppendix.Record.Values
import LedgerAppendix.Table
import LedgerAppendix.Text
import LedgerAppendix.Transaction
import LedgerAppendix.Wire
import LedgerAppendix.Proofs.Appendix.Admission
import LedgerAppendix.Proofs.Appendix.Collection
import LedgerAppendix.Proofs.Appendix.Refusals
import LedgerAppendix.Proofs.Appendix.Rules
import LedgerAppendix.Proofs.Appendix.Set
import LedgerAppendix.Proofs.Attachment.Appendix
import LedgerAppendix.Proofs.Attachment.Fields
import LedgerAppendix.Proofs.Attachment.Forms
import LedgerAppendix.Proofs.Attachment.Grammar
import LedgerAppendix.Proofs.Attachment.Refusals
import LedgerAppendix.Proofs.Attachment.Set
import LedgerAppendix.Proofs.Basic
import LedgerAppendix.Proofs.Ledger.KeyBinding
import LedgerAppendix.Proofs.Node.Admission
import LedgerAppendix.Proofs.Node.Application
import LedgerAppendix.Proofs.Node.Attempt
import LedgerAppendix.Proofs.Node.Counters
import LedgerAppendix.Proofs.Node.DuePolls
import LedgerAppendix.Proofs.Node.EarlyResolution
import LedgerAppendix.Proofs.Node.Escrow
import LedgerAppendix.Proofs.Node.Finality
import LedgerAppendix.Proofs.Node.Heights
import LedgerAppendix.Proofs.Node.KeyBinding
import LedgerAppendix.Proofs.Node.Move
import LedgerAppendix.Proofs.Node.PendingPolls
import LedgerAppendix.Proofs.Node.Quorum
import LedgerAppendix.Proofs.Node.Replay
import LedgerAppendix.Proofs.Node.Request
import LedgerAppendix.Proofs.Node.Resolution
import LedgerAppendix.Proofs.Node.Run
import LedgerAppendix.Proofs.Node.Settlement
import LedgerAppendix.Proofs.Node.Undisturbed
import LedgerAppendix.Proofs.Node.VoteOrder
import LedgerAppendix.Proofs.Node.Voting
import LedgerAppendix.Proofs.Poll.Ballot
import LedgerAppendix.Proofs.Poll.Store
import LedgerAppendix.Proofs.Poll.Tally
import LedgerAppendix.Proofs.Text.Hex
import LedgerAppendix.Proofs.Text.Utf8
import LedgerAppendix.Proofs.Wire.Admission
import LedgerAppendix.Proofs.Wire.Appendix
import LedgerAppendix.Proofs.Wire.Cursor
import LedgerAppendix.Proofs.Wire.Pieces
import LedgerAppendix.Proofs.Wire.Reads
import LedgerAppendix.Proofs.Wire.Region
import LedgerAppendix.Proofs.Wire.Requests
