import IdentityCommon.Lib.DigitString
import IdentityCommon.TokenStatusList.ByteArray
import IdentityCommon.TokenStatusList.ByteFormat
import IdentityCommon.Lib.Feistel
import IdentityCommon.Lib.CycleWalk
import IdentityCommon.TokenStatusList.Ff1
import IdentityCommon.TokenStatusList.IndexFeistel
import IdentityCommon.Lib.AssocList
import IdentityCommon.Ecma.Number
import IdentityCommon.Ecma.Value
import IdentityCommon.Lib.Except
import IdentityCommon.Dcql.Query
import IdentityCommon.Dcql.ClaimParser
import IdentityCommon.Dcql.PathPointer
import IdentityCommon.Dcql.DeepMerge
import IdentityCommon.Dcql.Projection
import IdentityCommon.Dcql.ClaimOutput
import IdentityCommon.Dcql.ClaimsQuery
import IdentityCommon.Dcql.ClaimSets
import IdentityCommon.Dcql.CredentialQuery
import IdentityCommon.Dcql.Compact
import IdentityCommon.Dcql.QueryResult
import IdentityCommon.Ecma.Json
import IdentityCommon.Ecma.JsonRoundTrip
import IdentityCommon.Common.Base64url
import IdentityCommon.SdJwt.Disclosure
import IdentityCommon.SdJwt.Decode
import IdentityCommon.SdJwt.Tree
import IdentityCommon.SdJwt.Unpack
import IdentityCommon.SdJwt.Termination
import IdentityCommon.SdJwt.Processing
import IdentityCommon.Ecma.Text
import IdentityCommon.SdJwt.Jwt
import IdentityCommon.SdJwt.SdJwt
import IdentityCommon.SdJwt.Instance
import IdentityCommon.SdJwt.KeyBinding
import IdentityCommon.SdJwt.SafeVerify
import IdentityCommon.Lib.BipartiteMatching
import IdentityCommon.Mdoc.MaximumMatching
import IdentityCommon.Mdoc.Attribution
import IdentityCommon.Lib.Run
import IdentityCommon.Mdoc.IssuerSignedBuilder
import IdentityCommon.Lib.OrderedMap
import IdentityCommon.TokenStatusList.Compression
import IdentityCommon.TokenStatusList.StatusListCbor
import IdentityCommon.TokenStatusList.StatusListCwt
import IdentityCommon.OpenidFederation.PolicyOperators
import IdentityCommon.OpenidFederation.MetadataPolicy
import IdentityCommon.Lib.KeyedFold
import IdentityCommon.OpenidFederation.PolicyMerge
import IdentityCommon.OpenidFederation.PolicyApplication
import IdentityCommon.OpenidFederation.PolicyStages
import IdentityCommon.OpenidFederation.PolicyBinding
import IdentityCommon.OpenidFederation.CombinedPolicies
import IdentityCommon.Lib.Cbor
import IdentityCommon.Cose.Headers
import IdentityCommon.Cose.Sign1
import IdentityCommon.Cose.Mac0
import IdentityCommon.Cose.Cwt
import IdentityCommon.Cose.Retention
import IdentityCommon.X509.Crl
import IdentityCommon.Ecma.JsonNormal
import IdentityCommon.Common.Validation
import IdentityCommon.Jose.Header
import IdentityCommon.Jose.CriticalHeaders
import IdentityCommon.Jose.SignJws
import IdentityCommon.Jose.ParseJws
import IdentityCommon.SdJwtVc.TypeMetadata
import IdentityCommon.SdJwtVc.Inheritance
import IdentityCommon.Lib.FloatFormat
import IdentityCommon.Ecma.Double
import IdentityCommon.Ecma.Date
import IdentityCommon.Jose.JwtClaims
import IdentityCommon.Cose.CwtClaims
import IdentityCommon.Cose.ValidityWindow
import IdentityCommon.Jose.Algorithms
import IdentityCommon.Jose.VerifyJws
import IdentityCommon.Jose.Jwt
import IdentityCommon.Oauth2.Callbacks
import IdentityCommon.Oauth2.Dpop
import IdentityCommon.Oauth2.Fetch
import IdentityCommon.Jose.JwkSet
import IdentityCommon.Oauth2.AccessToken
import IdentityCommon.Oauth2.ResourceRequest
import IdentityCommon.Oauth2.ClientAttestation
import IdentityCommon.Oauth2.AccessTokenRequest
import IdentityCommon.Cose.Sign1Algorithm
import IdentityCommon.Cose.Key
import IdentityCommon.Lib.NumeralString
import IdentityCommon.TokenStatusList.Ff1Standard
import IdentityCommon.TokenStatusList.IndexShuffle
import IdentityCommon.Lib.CompatibleChoice
import IdentityCommon.Mdoc.UseCases
import IdentityCommon.Mdoc.MatchElements
import IdentityCommon.Mdoc.OverDisclosure
import IdentityCommon.Common.StrictSchemas
import IdentityCommon.Common.LooseObjects
import IdentityCommon.Openid4vci.ClaimsConversion
import IdentityCommon.Openid4vci.CredentialOffer
import IdentityCommon.Jades.Schemas
import IdentityCommon.Jades.Verifier
import IdentityCommon.Jades.SignedContent
import IdentityCommon.Jades.Token
import IdentityCommon.Jades.TokenInvariant
import IdentityCommon.Jades.Serialization
import IdentityCommon.Jades.TokenRuns
import IdentityCommon.Lib.Computation
import IdentityCommon.Lib.BitString
import IdentityCommon.Common.Base64
import IdentityCommon.Openid4vp.TransactionData
import IdentityCommon.Openid4vp.Version
import IdentityCommon.Lib.Der
import IdentityCommon.X509.EcdsaSignature
import IdentityCommon.X509.Signature
import IdentityCommon.EudiAttestationSchema.Dcql
import IdentityCommon.Jose.SignerHeader
import IdentityCommon.Openid4vcUtils.WwwAuthenticate
import IdentityCommon.Openid4vcUtils.ChallengeParams
import IdentityCommon.Openid4vcUtils.ChallengePayload
import IdentityCommon.Jose.X5c
import IdentityCommon.Ecma.UrlSearchParams
import IdentityCommon.Openid4vcUtils.Url
import IdentityCommon.Openid4vci.CredentialOffer
import IdentityCommon.Openid4vcUtils.ChallengeRoundTrip
import IdentityCommon.EudiSca.ShownClaims
import IdentityCommon.SdJwt.Withholding
import IdentityCommon.SdJwt.Presentation
import IdentityCommon.SdJwt.Pack
import IdentityCommon.SdJwt.PackTree
import IdentityCommon.SdJwt.Issuance
import IdentityCommon.Lib.ConcurrentSearch
import IdentityCommon.OpenidFederation.EntityStatement
import IdentityCommon.OpenidFederation.TrustChains
import IdentityCommon.OpenidFederation.CreateStatement
import IdentityCommon.OpenidFederation.TrustChainDiscovery
import IdentityCommon.OpenidFederation.ChainMetadata
import IdentityCommon.OpenidFederation.TrustChainValidity
import IdentityCommon.OpenidFederation.TrustChainRequests
import IdentityCommon.OpenidFederation.TrustChainCompleteness
import IdentityCommon.Mdoc.SelectElements
import IdentityCommon.Mdoc.Disclosure
import IdentityCommon.Mdoc.AcceptedResponse
import IdentityCommon.Mdoc.DeviceRequest
import IdentityCommon.Mdoc.AnsweredRequest
