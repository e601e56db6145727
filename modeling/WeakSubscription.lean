import WeakSubscription.Attributes
import WeakSubscription.Code
import WeakSubscription.Delegate.Arithmetic
import WeakSubscription.Delegate.Basic
import WeakSubscription.Delegate.Weak
import WeakSubscription.Error
import WeakSubscription.Execution.Call
import WeakSubscription.Execution.Frame
import WeakSubscription.Execution.Machine
import WeakSubscription.Execution.Outside
import WeakSubscription.Execution.Step
import WeakSubscription.Instruction
import WeakSubscription.Module.Basic
import WeakSubscription.Module.Declare
import WeakSubscription.Module.Edit
import WeakSubscription.Module.Rows
import WeakSubscription.Opcode
import WeakSubscription.Signature
import WeakSubscription.Text.Padded
import WeakSubscription.Token
import WeakSubscription.Tracked
import WeakSubscription.Ty.Basic
import WeakSubscription.Ty.Instantiate
import WeakSubscription.TypeName
import WeakSubscription.Verification.Method
import WeakSubscription.Verification.Slot
import WeakSubscription.Verification.Step
import WeakSubscription.Weaving.Event
import WeakSubscription.Weaving.Fragment
import WeakSubscription.Weaving.Helper
import WeakSubscription.Weaving.HelperRefs
import WeakSubscription.Weaving.Settings
import WeakSubscription.Proofs.Execution.Steps
import WeakSubscription.Proofs.Verification.Steps
import WeakSubscription.Proofs.Verification.Simulation
import WeakSubscription.Proofs.Verification.Shape
import WeakSubscription.Proofs.Verification.Splicing
import WeakSubscription.Proofs.Execution.Lasting
import WeakSubscription.Proofs.Execution.HeapTypes
import WeakSubscription.Proofs.Verification.Conformance
import WeakSubscription.Proofs.Module.Growth
import WeakSubscription.Proofs.Module.Interning
import WeakSubscription.Proofs.Module.Exhaustion
import WeakSubscription.Proofs.Delegate.Carried
import WeakSubscription.Proofs.Delegate.Recorded
import WeakSubscription.Proofs.Execution.Requests
import WeakSubscription.Proofs.Execution.Ledger
import WeakSubscription.Proofs.Execution.Recording
import WeakSubscription.Proofs.Execution.Stepwise
import WeakSubscription.Proofs.Execution.Termination
import WeakSubscription.Proofs.Execution.Leads
import WeakSubscription.Proofs.Execution.Fields
import WeakSubscription.Proofs.Weaving.Fragments
import WeakSubscription.Proofs.Weaving.Typing
import WeakSubscription.Proofs.Weaving.EventCode
import WeakSubscription.Proofs.Weaving.Accessors
import WeakSubscription.Proofs.Weaving.Atomic
import WeakSubscription.Proofs.Weaving.EventTyping
import WeakSubscription.Proofs.Weaving.Woven
import WeakSubscription.Proofs.Module.History
import WeakSubscription.Proofs.Module.Effects
import WeakSubscription.Proofs.Module.Additions
import WeakSubscription.Proofs.Module.Ownership
import WeakSubscription.Proofs.Module.Listing
import WeakSubscription.Proofs.Module.Arena
import WeakSubscription.Proofs.Module.Extension
import WeakSubscription.Proofs.Verification.Framing
import WeakSubscription.Proofs.Weaving.History
import WeakSubscription.Proofs.Weaving.Imported
import WeakSubscription.Proofs.Events.Follows
import WeakSubscription.Proofs.Events.Raise
import WeakSubscription.Proofs.Events.Wrapped
import WeakSubscription.Proofs.Weaving.Emitted
import WeakSubscription.Proofs.Weaving.Verified
import WeakSubscription.Proofs.Weaving.Meaning
import WeakSubscription.Proofs.Weaving.Growth
import WeakSubscription.Proofs.Execution.Wrappers
import WeakSubscription.Proofs.Events.Twin
import WeakSubscription.Proofs.Code.Decoding
import WeakSubscription.Proofs.Execution.Answers
import WeakSubscription.Proofs.Verification.Kinds
import WeakSubscription.Proofs.Module.Lockstep
import WeakSubscription.Proofs.Module.Headings
import WeakSubscription.Proofs.Weaving.Corresponding
import WeakSubscription.Proofs.Weaving.Plan
import WeakSubscription.Proofs.Weaving.Repeatable
import WeakSubscription.Proofs.Weaving.Templates
import WeakSubscription.Proofs.Weaving.Conversions
import WeakSubscription.Proofs.Weaving.Suitable
import WeakSubscription.Proofs.Weaving.Order
import WeakSubscription.Proofs.Verification.Encoding
import WeakSubscription.Proofs.Weaving.Interchange
import WeakSubscription.Proofs.Execution.Invoke
import WeakSubscription.Proofs.Weaving.DelegateTypes
import WeakSubscription.Proofs.Delegate.Removal
import WeakSubscription.Proofs.Module.TypeNames
import WeakSubscription.Proofs.Weaving.WeakHelpers
import WeakSubscription.Proofs.Weaving.Importing
import WeakSubscription.Proofs.Delegate.Laws
import WeakSubscription.Proofs.Delegate.Conversion
import WeakSubscription.Proofs.Delegate.Finding
import WeakSubscription.Proofs.Execution.CallLimit
import WeakSubscription.Proofs.Module.Interned
import WeakSubscription.Proofs.Module.Rollback
import WeakSubscription.Proofs.Module.Instantiation
import WeakSubscription.Proofs.Execution.Collection
import WeakSubscription.Proofs.Ty.FullNames
import WeakSubscription.Proofs.Code.StackEffects
