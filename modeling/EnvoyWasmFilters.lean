import EnvoyWasmFilters.Library.FirstMatch
import EnvoyWasmFilters.Library.GuardedRun
import EnvoyWasmFilters.Library.Multimap
import EnvoyWasmFilters.Library.StateExcept
import EnvoyWasmFilters.TransformationFilter.Matcher
import EnvoyWasmFilters.Inja.Lexer
import EnvoyWasmFilters.Inja.Bytecode
import EnvoyWasmFilters.Inja.Parser
import EnvoyWasmFilters.Inja.ParserTotal
import EnvoyWasmFilters.TransformationFilter.Transformation
import EnvoyWasmFilters.TransformationFilter.Filter
import EnvoyWasmFilters.TransformationFilter.PlainTemplates
import EnvoyWasmFilters.TransformationFilter.RouteSelection
import EnvoyWasmFilters.TransformationFilter.Reconfiguration
import EnvoyWasmFilters.TransformationFilter.StreamPointers
import EnvoyWasmFilters.TransformationFilter.HeaderRewrite
import EnvoyWasmFilters.TransformationFilter.MapOrder
import EnvoyWasmFilters.AwsLambda.Gmtime
import EnvoyWasmFilters.AwsLambda.Authenticator
import EnvoyWasmFilters.AwsLambda.Filter
import EnvoyWasmFilters.AwsLambda.StreamSigning
import EnvoyWasmFilters.AwsLambda.Timestamp
import EnvoyWasmFilters.TransformationFilter.HeaderOrder
import EnvoyWasmFilters.TransformationFilter.Renaming
import EnvoyWasmFilters.TransformationFilter.LetterCase
import EnvoyWasmFilters.AwsLambda.CanonicalRequest
import EnvoyWasmFilters.AwsLambda.PathViews
import EnvoyWasmFilters.AwsLambda.Reference
import EnvoyWasmFilters.AwsLambda.Executions
import EnvoyWasmFilters.AwsLambda.InvocationHeaders
import EnvoyWasmFilters.Metrics.Filter
import EnvoyWasmFilters.Metrics.Runs
import EnvoyWasmFilters.Metrics.Accounting
import EnvoyWasmFilters.Metrics.Isolation
import EnvoyWasmFilters.Common.ResponseFlags
import EnvoyWasmFilters.Metrics.HostFallback
import EnvoyWasmFilters.Metrics.FlagCounters
import EnvoyWasmFilters.Metrics.Durations
import EnvoyWasmFilters.AwsLambda.CivilDates
import EnvoyWasmFilters.AwsLambda.ViewLifetimes
import EnvoyWasmFilters.AwsLambda.CanonicalQuery
import EnvoyWasmFilters.AwsLambda.SignedHeaders
import EnvoyWasmFilters.AwsLambda.Repeatability
import EnvoyWasmFilters.AwsLambda.YearLoop
import EnvoyWasmFilters.AwsLambda.TimeOrder
import EnvoyWasmFilters.AwsLambda.PathSplit
import EnvoyWasmFilters.TransformationFilter.SharedParser
import EnvoyWasmFilters.TransformationFilter.NoIncludes
import EnvoyWasmFilters.Inja.Rounds
import EnvoyWasmFilters.Inja.Renderer
import EnvoyWasmFilters.Inja.IncludeFree
import EnvoyWasmFilters.Library.WhileLoop
import EnvoyWasmFilters.TransformationFilter.PlainRuns
import EnvoyWasmFilters.Library.FailingMachine
import EnvoyWasmFilters.Library.CodeLayout
import EnvoyWasmFilters.Library.Backpatch
import EnvoyWasmFilters.Inja.Syntax
import EnvoyWasmFilters.Inja.Compile
import EnvoyWasmFilters.Inja.Execution
import EnvoyWasmFilters.Inja.TreeExecution
import EnvoyWasmFilters.Inja.Tokens
import EnvoyWasmFilters.Inja.Grammar
import EnvoyWasmFilters.Inja.ExpressionParsing
import EnvoyWasmFilters.Inja.TemplateGrammar
import EnvoyWasmFilters.Inja.TemplateParsing
import EnvoyWasmFilters.Inja.Json
import EnvoyWasmFilters.Inja.Meaning
import EnvoyWasmFilters.Inja.Safety
import EnvoyWasmFilters.Inja.Faults
import EnvoyWasmFilters.Inja.ExpressionSoundness
import EnvoyWasmFilters.Inja.Items
import EnvoyWasmFilters.Inja.Nesting
import EnvoyWasmFilters.Inja.TemplateSoundness
import EnvoyWasmFilters.TransformationFilter.TemplateMeaning
import EnvoyWasmFilters.Library.Interleaving
import EnvoyWasmFilters.AwsLambda.Verification
import EnvoyWasmFilters.Inja.TextCover
import EnvoyWasmFilters.Metrics.Interleavings
import EnvoyWasmFilters.Library.Simulation
import EnvoyWasmFilters.TransformationFilter.Refinement
