import Backtest.Command.Arguments

/-!
# Help

What the command line says about itself.
-/
namespace Backtest

/-- A text of lines. -/
def linesText (lines : List String) : String := String.join (lines.map (· ++ "\n"))

/-- The lines of a subject. -/
def HelpTopic.lines : HelpTopic → List String
  | all =>
    ["WalkForge CLI — walk-forward optimization for MA crossover strategies",
      "",
      "Usage: walkforge [OPTIONS] <COMMAND>",
      "",
      "Commands:",
      "  run       Run a walk-forward optimization",
      "  windows   Preview the window schedule for a config",
      "  backtest  Simulate a single parameter set",
      "  help      Print this message or the help of the given subcommand(s)",
      "",
      "Options:",
      "  -v, --verbose  Debug-level logging (overridden by RUST_LOG)",
      "  -h, --help     Print help"]
  | run =>
    ["Run a walk-forward optimization",
      "",
      "Usage: walkforge run [OPTIONS] --config <CONFIG> --data <DATA>",
      "",
      "Options:",
      "      --config <CONFIG>          Path to a TOML run config",
      "  -v, --verbose                  Debug-level logging (overridden by RUST_LOG)",
      "      --data <DATA>              Candle CSV (open_time,open,high,low,close[,volume])",
      "      --threads <THREADS>        Override the config's search thread count",
      "      --output-dir <OUTPUT_DIR>  Output directory for result artifacts [default: results]",
      "      --no-save                  Skip writing artifacts",
      "      --report                   Print the full Markdown report instead of the short " ++
        "summary",
      "  -h, --help                     Print help"]
  | windows =>
    ["Preview the window schedule for a config",
      "",
      "Usage: walkforge windows [OPTIONS] --config <CONFIG>",
      "",
      "Options:",
      "      --config <CONFIG>  Path to a TOML run config",
      "  -v, --verbose          Debug-level logging (overridden by RUST_LOG)",
      "  -h, --help             Print help"]
  | backtest =>
    ["Simulate a single parameter set",
      "",
      "Usage: walkforge backtest [OPTIONS] --data <DATA>",
      "",
      "Options:",
      "      --data <DATA>",
      "          Candle CSV",
      "  -v, --verbose",
      "          Debug-level logging (overridden by RUST_LOG)",
      "      --param <NAME=VALUE>",
      "          Parameter overrides, e.g. `--param fast_period=5 --param ma_type=sma`",
      "      --start <START>",
      "          Only candles at or after this RFC 3339 time",
      "      --end <END>",
      "          Only candles before this RFC 3339 time",
      "      --initial-balance <INITIAL_BALANCE>",
      "          [default: 10000]",
      "      --leverage <LEVERAGE>",
      "          [default: 1]",
      "      --fee-rate <FEE_RATE>",
      "          [default: 0.0004]",
      "  -h, --help",
      "          Print help"]

/-- The text of a subject. -/
def HelpTopic.text (t : HelpTopic) : String := linesText t.lines

end Backtest
