import BeanCodegen.Compile
import BeanCodegen.Config
import BeanCodegen.Decimal.Binary
import BeanCodegen.Decimal.Notation
import BeanCodegen.Decimal.Read
import BeanCodegen.Decimal.Shortest
import BeanCodegen.Descriptor.Basic
import BeanCodegen.Descriptor.Decode
import BeanCodegen.Descriptor.Encode
import BeanCodegen.Descriptor.Layout
import BeanCodegen.Descriptor.Wire
import BeanCodegen.Emit.Bean
import BeanCodegen.Emit.Converter
import BeanCodegen.Emit.Draft
import BeanCodegen.Error
import BeanCodegen.Java.Check
import BeanCodegen.Java.ClassName
import BeanCodegen.Java.Comment
import BeanCodegen.Java.Header
import BeanCodegen.Java.Imports
import BeanCodegen.Java.Script
import BeanCodegen.Java.Writer
import BeanCodegen.Main
import BeanCodegen.Naming.Case
import BeanCodegen.Naming.Package
import BeanCodegen.Naming.Registry
import BeanCodegen.Naming.Reserved
import BeanCodegen.Plan.Allocate
import BeanCodegen.Plan.Basic
import BeanCodegen.Plugin
import BeanCodegen.Schema.Basic
import BeanCodegen.Schema.Build
import BeanCodegen.Schema.Describe
import BeanCodegen.Schema.Error
import BeanCodegen.Schema.FieldType
import BeanCodegen.Schema.Index
import BeanCodegen.Session
import BeanCodegen.Shape.Basic
import BeanCodegen.Shape.Classify
import BeanCodegen.Shape.Default
import BeanCodegen.Shape.Render
import BeanCodegen.Text.Blank
import BeanCodegen.Text.ByteEscape
import BeanCodegen.Text.CaseClass
import BeanCodegen.Text.CaseMap
import BeanCodegen.Text.Json
import BeanCodegen.Text.Lines
import BeanCodegen.Text.Literal
import BeanCodegen.Text.Printable
import BeanCodegen.Proofs.Arena
import BeanCodegen.Proofs.Registry
import BeanCodegen.Proofs.ClassScopes
import BeanCodegen.Proofs.MessageWalk
import BeanCodegen.Proofs.ClassNames
import BeanCodegen.Proofs.Imports
import BeanCodegen.Proofs.Declarations
import BeanCodegen.Proofs.BeanClasses
import BeanCodegen.Proofs.OneofPlans
import BeanCodegen.Proofs.BeanLayout
import BeanCodegen.Proofs.LateErrors
import BeanCodegen.Proofs.RequestErrors
import BeanCodegen.Proofs.ArtifactPaths
import BeanCodegen.Proofs.IndexBounds
import BeanCodegen.Proofs.FileHeaders
import BeanCodegen.Proofs.SourcePaths
import BeanCodegen.Proofs.MemberNames
import BeanCodegen.Proofs.Identifiers
import BeanCodegen.Proofs.JavaNames
import BeanCodegen.Proofs.InertComments
import BeanCodegen.Proofs.Annotations
import BeanCodegen.Proofs.PlanIndependence
import BeanCodegen.Proofs.EscapeRoundTrip
import BeanCodegen.Proofs.TypeResolution
import BeanCodegen.Proofs.EnumLookup
import BeanCodegen.Proofs.ConverterImports
import BeanCodegen.Proofs.MapFields
import BeanCodegen.Proofs.EntryPlans
import BeanCodegen.Proofs.CamelForms
import BeanCodegen.Proofs.PackageNames
import BeanCodegen.Proofs.ParameterMaps
import BeanCodegen.Proofs.BracketScan
import BeanCodegen.Proofs.FieldSlots
import BeanCodegen.Proofs.TextLayout
import BeanCodegen.Proofs.FileLayout
import BeanCodegen.Proofs.TopPieces
import BeanCodegen.Proofs.ClassSites
