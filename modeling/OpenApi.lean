import OpenApi.Error
import OpenApi.Json.Basic
import OpenApi.Json.Reader
import OpenApi.Json.Writer
import OpenApi.MediaType
import OpenApi.Numeric.Binary64
import OpenApi.Numeric.Decimal
import OpenApi.Options
import OpenApi.Ordered
import OpenApi.Parameter.Basic
import OpenApi.Parameter.Decoded
import OpenApi.Parameter.Style
import OpenApi.Pattern.Category
import OpenApi.Pattern.CharSet
import OpenApi.Pattern.Property
import OpenApi.Pattern.Ranges
import OpenApi.Pattern.Reader
import OpenApi.Pattern.Regex
import OpenApi.Pattern.Script
import OpenApi.Pointer
import OpenApi.Registry.Basic
import OpenApi.Registry.Node
import OpenApi.Schema.Assertion
import OpenApi.Schema.Basic
import OpenApi.Schema.Combinator
import OpenApi.Schema.Discriminator
import OpenApi.Schema.Keyword
import OpenApi.Schema.Members
import OpenApi.Schema.Validator
import OpenApi.Schema.Verdict
import OpenApi.SchemaType
import OpenApi.Text.Blank
import OpenApi.Text.CaseFold
import OpenApi.Text.Percent
import OpenApi.Text.Split
import OpenApi.Text.Utf8
import OpenApi.Uri.Basic
import OpenApi.Uri.Host
import OpenApi.Uri.Punycode
import OpenApi.Uri.Reader
import OpenApi.Yaml.Scalar
import OpenApi.Yaml.Token
import OpenApi.Yaml.Tree
import OpenApi.Yaml.Value
import OpenApi.Proofs.Evaluation.Outcome
import OpenApi.Proofs.Json.Parts
import OpenApi.Proofs.Evaluation.Keyword
import OpenApi.Proofs.Evaluation.Depth
import OpenApi.Proofs.Evaluation.Dialect
import OpenApi.Proofs.Pointer
import OpenApi.Proofs.Registry.Node
import OpenApi.Proofs.Evaluation.Plan
import OpenApi.Proofs.Evaluation.Reach
import OpenApi.Proofs.Evaluation.Unchanged
import OpenApi.Proofs.Text.Percent
import OpenApi.Proofs.Registry.Scope
import OpenApi.Proofs.Evaluation.Conversion
import OpenApi.Proofs.Registry.Places
import OpenApi.Proofs.Evaluation.Graph
import OpenApi.Proofs.Evaluation.Termination
import OpenApi.Proofs.Json.Identical
import OpenApi.Proofs.Text.CaseFold
import OpenApi.Proofs.Uri.Domain
import OpenApi.Proofs.Uri.Address
import OpenApi.Proofs.Uri.Host
import OpenApi.Proofs.Uri.Path
import OpenApi.Proofs.Uri.Authority
import OpenApi.Proofs.Uri.Regular
import OpenApi.Proofs.Uri.Reader
import OpenApi.Proofs.Registry.Registration
import OpenApi.Proofs.Registry.Chain
import OpenApi.Proofs.Uri.Relative
import OpenApi.Proofs.Yaml.Value
import OpenApi.Proofs.Registry.Declaration
import OpenApi.Proofs.Registry.Index
import OpenApi.Proofs.Registry.Resource
import OpenApi.Proofs.Evaluation.Shorthand
import OpenApi.Proofs.Evaluation.Typing
import OpenApi.Proofs.Parameter.Layout
import OpenApi.Proofs.Registry.Distinct
import OpenApi.Proofs.Evaluation.Acceptance
import OpenApi.Proofs.Evaluation.Inheritance
import OpenApi.Proofs.Evaluation.Members
import OpenApi.Proofs.Evaluation.Leniency
import OpenApi.Proofs.Evaluation.Filling
import OpenApi.Proofs.Evaluation.Growth
import OpenApi.Proofs.Evaluation.Causes
import OpenApi.Proofs.Evaluation.Conjunction
import OpenApi.Proofs.Evaluation.Stability
import OpenApi.Proofs.Evaluation.Normalization
import OpenApi.Proofs.Numeric.Rounding
import OpenApi.Proofs.Numeric.Doubles
import OpenApi.Proofs.Numeric.Integers
import OpenApi.Proofs.Numeric.Multiples
import OpenApi.Proofs.Parameter.Conversion
import OpenApi.Proofs.Parameter.Integers
import OpenApi.Proofs.Parameter.Deep
import OpenApi.Proofs.Parameter.Single
import OpenApi.Proofs.Parameter.Description
import OpenApi.Proofs.Parameter.Supplied
import OpenApi.Proofs.Evaluation.Selection
import OpenApi.Proofs.Evaluation.Exclusion
import OpenApi.Proofs.Evaluation.Trail
import OpenApi.Proofs.Evaluation.Coverage
import OpenApi.Proofs.Evaluation.Surfacing
import OpenApi.Proofs.Evaluation.Inside
import OpenApi.Proofs.Evaluation.Descent
import OpenApi.Proofs.Evaluation.Numbers
import OpenApi.Proofs.Registry.Lookup
import OpenApi.Proofs.Text.Replace
import OpenApi.Proofs.Segments
