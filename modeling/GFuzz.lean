import GFuzz.Config
import GFuzz.Runtime
import GFuzz.Similarity
import GFuzz.History
import GFuzz.Diversity
import GFuzz.Weights
import GFuzz.Integration
import GFuzz.Strings
import GFuzz.IR
import GFuzz.KeyVars
import GFuzz.Manifest
import GFuzz.Instrument
import GFuzz.Pipeline
