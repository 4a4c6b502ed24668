import KeyedFlow.Assertion
import KeyedFlow.Binary64
import KeyedFlow.Coder.Basic
import KeyedFlow.Coder.FixedWidth
import KeyedFlow.Coder.Registry
import KeyedFlow.Coder.Stream
import KeyedFlow.Coder.Varint
import KeyedFlow.Collection.Basic
import KeyedFlow.Collection.Combining
import KeyedFlow.Collection.Grouping
import KeyedFlow.Collection.Keyed
import KeyedFlow.Combiner.Accumulating
import KeyedFlow.Combiner.Arithmetic
import KeyedFlow.Combiner.Basic
import KeyedFlow.Combiner.Buffered
import KeyedFlow.Combiner.Consistency
import KeyedFlow.Combiner.Operator
import KeyedFlow.ElemType.Basic
import KeyedFlow.ElemType.Equality
import KeyedFlow.Fault
import KeyedFlow.FlowError
import KeyedFlow.Graph.Basic
import KeyedFlow.Graph.Evaluate
import KeyedFlow.Groups
import KeyedFlow.Holder
import KeyedFlow.InputOrAccum
import KeyedFlow.KeyHash
import KeyedFlow.Proofs.Assertion.Equality
import KeyedFlow.Proofs.Assertion.Sorted
import KeyedFlow.Proofs.Building
import KeyedFlow.Proofs.Coder.Appending
import KeyedFlow.Proofs.Coder.Canonical
import KeyedFlow.Proofs.Coder.Crossing
import KeyedFlow.Proofs.Coder.Determinism
import KeyedFlow.Proofs.Coder.FullSinks
import KeyedFlow.Proofs.Coder.Leaves
import KeyedFlow.Proofs.Coder.Numerals
import KeyedFlow.Proofs.Coder.RoundTrip
import KeyedFlow.Proofs.Coder.Streams
import KeyedFlow.Proofs.Coder.Truncation
import KeyedFlow.Proofs.Coder.Varint
import KeyedFlow.Proofs.CoderBinding
import KeyedFlow.Proofs.Collections
import KeyedFlow.Proofs.Combiner.Buffered
import KeyedFlow.Proofs.Combiner.BuiltIn
import KeyedFlow.Proofs.Combiner.Consistency
import KeyedFlow.Proofs.Combiner.Laws
import KeyedFlow.Proofs.Combiner.MergeTree
import KeyedFlow.Proofs.Combiner.Mixtures
import KeyedFlow.Proofs.Combiner.Overflow
import KeyedFlow.Proofs.Combiner.Partials
import KeyedFlow.Proofs.Combiner.Sums
import KeyedFlow.Proofs.Compatibility
import KeyedFlow.Proofs.Evaluation
import KeyedFlow.Proofs.Globally
import KeyedFlow.Proofs.GroupByKey
import KeyedFlow.Proofs.GroupedValues
import KeyedFlow.Proofs.Grouping
import KeyedFlow.Proofs.Groups
import KeyedFlow.Proofs.Modes.Bundles
import KeyedFlow.Proofs.Modes.Graph
import KeyedFlow.Proofs.Modes.Sessions
import KeyedFlow.Proofs.Outcome
import KeyedFlow.Proofs.PerKey.ColdKeys
import KeyedFlow.Proofs.PerKey.Direct
import KeyedFlow.Proofs.PerKey.FanOut
import KeyedFlow.Proofs.PerKey.HotKeys
import KeyedFlow.Proofs.PerKey.Lifting
import KeyedFlow.Proofs.PerKey.OutputCoder
import KeyedFlow.Proofs.PerKey.Refusals
import KeyedFlow.Proofs.PerKey.Shards
import KeyedFlow.Proofs.Placement
import KeyedFlow.Proofs.Runs
import KeyedFlow.Proofs.SideInputs
import KeyedFlow.Proofs.SingletonView
import KeyedFlow.Proofs.Slots
import KeyedFlow.Proofs.Splitting
import KeyedFlow.Proofs.Strategies
import KeyedFlow.Proofs.Typing.Collections
import KeyedFlow.Proofs.Typing.Graph
import KeyedFlow.Proofs.Typing.Sessions
import KeyedFlow.Proofs.Typing.Transforms
import KeyedFlow.Proofs.Windows
import KeyedFlow.Sample.Coders
import KeyedFlow.Sample.Combiners
import KeyedFlow.Sample.Functions
import KeyedFlow.Sample.Names
import KeyedFlow.Sample.Order
import KeyedFlow.Sample.Relabel
import KeyedFlow.Sample.Scalar
import KeyedFlow.Serial
import KeyedFlow.Session
import KeyedFlow.SideInput
import KeyedFlow.Text.Hex
import KeyedFlow.Text.Printable
import KeyedFlow.Text.Quoted
import KeyedFlow.Text.Utf8
import KeyedFlow.Transform.Basic
import KeyedFlow.Transform.FanOut
import KeyedFlow.Transform.Globally
import KeyedFlow.Transform.GroupedValues
import KeyedFlow.Transform.Partials
import KeyedFlow.Transform.PerKey
import KeyedFlow.Window.Basic
import KeyedFlow.Window.Json
import KeyedFlow.Word
